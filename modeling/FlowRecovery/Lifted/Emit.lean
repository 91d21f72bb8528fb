/-
Emitting the code of a unit.

A computation of type `Emit α` starts at a first free temporary and yields a
value, the instructions it has emitted, and the next free temporary.  It cannot
see or change what was emitted before it, so the code of a sequence is the
concatenation of the codes of its parts.

The contract of units: every machine instruction starts with `setPc`; the unit
ends with one branch to the next program counter and an exit; conditional
transfers branch to a selection between two program-counter literals; and units
that do not go on contain a halt.
-/
import FlowRecovery.Lifted

namespace FlowRecovery

/-- Code emitted from a first free temporary on. -/
structure Emitted (α : Type) where
  value : α
  insts : List Inst
  nextTemp : Temp

/-- A computation that emits code. -/
def Emit (α : Type) : Type := Temp → Emitted α

namespace Emit

variable {α β : Type}

instance : Monad Emit where
  pure a := fun t => ⟨a, [], t⟩
  bind x f := fun t =>
    let first := x t
    let second := f first.value first.nextTemp
    ⟨second.value, first.insts ++ second.insts, second.nextTemp⟩

/-- Emit one instruction. -/
def inst (i : Inst) : Emit Unit := fun t => ⟨(), [i], t⟩

/-- Emit one instruction that defines a fresh temporary, and answer with it. -/
def define (f : Temp → Inst) : Emit Operand := fun t => ⟨.temp t, [f t], t + 1⟩

/-- Start the machine instruction at `pc`. -/
def begin (pc : Addr) : Emit Unit := inst (.setPc pc)

/-- Read a register. -/
def readReg (reg : String) : Emit Operand := define (.readReg · reg)

/-- Write a register. -/
def writeReg (reg : String) (value : Operand) : Emit Unit := inst (.writeReg reg value)

/-- Combine two values. -/
def binary (op : BinOp) (lhs rhs : Operand) : Emit Operand := define (.binary · op lhs rhs)

/-- Choose between two values. -/
def select (cond ifTrue ifFalse : Operand) : Emit Operand := define (.select · cond ifTrue ifFalse)

/-- Read memory. -/
def load (addr : Operand) (size : UInt8) : Emit Operand := define (.load · addr size)

/-- Write memory. -/
def store (addr value : Operand) (size : UInt8) : Emit Unit := inst (.store addr value size)

/-- An operation that is not modelled further and yields a value. -/
def helper (name : String) (args : List Operand) : Emit Operand :=
  define fun t => .helper (some t) name args

/-- An operation that is not modelled further and only has effects. -/
def effect (name : String) (args : List Operand) : Emit Unit := inst (.helper none name args)

/-- Stop execution. -/
def halt : Emit Unit := inst .halt

/-- The unit that consists of the emitted code and a transfer to the answer. -/
def finish (x : Emit Operand) : Body :=
  let code := x 0
  { insts := code.insts ++ [.branch code.value, .exit], nextTemp := code.nextTemp }

end Emit

end FlowRecovery
