/-
Modules: the whole-program result.

A module holds the static data of every section, the assembled functions, and
the wrappers made for called imports.
-/
import FlowRecovery.Inst

namespace FlowRecovery

/-- Labelled straight-line code inside a function. -/
structure CodeBlock where
  label : String
  insts : List Inst
  deriving DecidableEq, Repr, Inhabited

/-- A function with complete control flow; its first block is the entry. -/
structure Func where
  name : String
  address : Addr
  blocks : List CodeBlock
  nextTemp : Temp
  deriving DecidableEq, Repr, Inhabited

namespace Func

/-- The first block with the label. -/
def block? (f : Func) (label : String) : Option CodeBlock := f.blocks.find? (·.label == label)

/-- The instructions of all blocks in order. -/
def insts (f : Func) : List Inst := f.blocks.flatMap (·.insts)

end Func

/-- The static data of one section. -/
structure GlobalData where
  name : String
  sect : String
  address : Addr
  size : Word
  /-- The initial contents; zeros if there are none. -/
  init : Option Bytes
  deriving DecidableEq, Repr, Inhabited

/-- Whether the address lies in the data. -/
def GlobalData.contains (g : GlobalData) (a : Addr) : Bool :=
  g.address ≤ a && a - g.address < g.size

/-- The result of a recovery. -/
structure Module where
  name : String
  globals : List GlobalData := []
  functions : List Func := []
  /-- The wrappers made for called imports, one per slot. -/
  wrappers : List Func := []
  deriving DecidableEq, Repr, Inhabited

namespace Module

/-- The functions, then the wrappers. -/
def allFunctions (m : Module) : List Func := m.functions ++ m.wrappers

/-- The first function or wrapper with the name. -/
def function? (m : Module) (name : String) : Option Func := m.allFunctions.find? (·.name == name)

/-- The first function at the address; wrappers do not count. -/
def functionAt? (m : Module) (a : Addr) : Option Func := m.functions.find? (·.address == a)

/-- The first global with the name. -/
def global? (m : Module) (name : String) : Option GlobalData := m.globals.find? (·.name == name)

/-- The instructions of all functions and wrappers in order. -/
def insts (m : Module) : List Inst := m.allFunctions.flatMap Func.insts

end Module

end FlowRecovery
