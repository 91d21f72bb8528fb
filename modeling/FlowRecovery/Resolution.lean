/-
Resolution: what the numbers and the calls of a module stand for.

Every section becomes a global.  A number in the code that is the address of a
function, the slot of an import or an address inside a section becomes a typed
reference.  Every relocation inside explored code must have its value in the
instruction it belongs to, and that value must stand for something.  Call markers
become calls of functions, of imports through wrappers, or indirect calls.

All passes work through `sweep`, which changes a list from left to right and
keeps what it has done when it fails.
-/
import FlowRecovery.Image
import FlowRecovery.Module.WellFormed
import FlowRecovery.Store
import FlowRecovery.Sweep

namespace FlowRecovery

/-- Why a module could not be resolved. -/
inductive ResolveError where
  | valueNotFound (site : Addr) (value : Word)
  | unresolvedRelocation (site : Addr) (value : Word)
  | unresolvedCall (site target : Addr)
  | verify (error : VerifyError)
  deriving DecidableEq, Repr

namespace ResolveError

/-- The text of the error. -/
def message : ResolveError → String
  | .valueNotFound site value =>
    "relocation at " ++ Text.addr site ++ ": value " ++ Text.addr value
      ++ " not found in the lifted instruction"
  | .unresolvedRelocation site value =>
    "relocation at " ++ Text.addr site ++ ": value " ++ Text.addr value
      ++ " matches no function, import or section"
  | .unresolvedCall site target =>
    "call at " ++ Text.addr site ++ " to " ++ Text.addr target
      ++ " resolves to neither a function nor an import"
  | .verify error => error.message

/-- The address that the error is about. -/
def site? : ResolveError → Option Addr
  | .valueNotFound site _ => some site
  | .unresolvedRelocation site _ => some site
  | .unresolvedCall site _ => some site
  | .verify _ => none

end ResolveError

/-- What resolution has done. -/
structure ResolveStats where
  relocations : Nat := 0
  /-- Relocations that are in no function. -/
  skippedRelocations : Nat := 0
  replacedConstants : Nat := 0
  memoryAccesses : Nat := 0
  /-- Loads and stores whose address is known without running the code. -/
  hardcodedAccesses : Nat := 0
  directCalls : Nat := 0
  importCalls : Nat := 0
  indirectCalls : Nat := 0
  wrappers : Nat := 0
  deriving DecidableEq, Repr, Inhabited

/-- Sweep over the blocks of a function. -/
def Func.sweepBlocks {ε σ : Type} (f : σ → CodeBlock → Swept ε σ CodeBlock) (s : σ)
    (func : Func) : Swept ε σ Func :=
  let swept := sweep f s func.blocks
  { swept with value := { func with blocks := swept.value } }

/-- Sweep over the instructions of a block. -/
def CodeBlock.sweepInsts {ε σ : Type} (f : σ → Inst → Swept ε σ Inst) (s : σ)
    (b : CodeBlock) : Swept ε σ CodeBlock :=
  let swept := sweep f s b.insts
  { swept with value := { b with insts := swept.value } }

/-- A name of letters, digits and underscores, without leading points. -/
def plainName (name : String) : String :=
  let cleaned := (name.toList.dropWhile (· == '.')).map fun c =>
    if c.isAlphanum then c else '_'
  if cleaned.isEmpty then "section" else String.ofList cleaned

/-- The name of the global made for a section. -/
def Section.globalName (s : Section) : String :=
  plainName s.name ++ "_global_" ++ Text.hex s.address

/-- The global made for a section. -/
def Section.global (s : Section) : GlobalData :=
  { name := s.globalName, sect := s.name, address := s.address, size := s.size, init := s.data }

/-- The globals made for the sections of an image. -/
def Image.globals (i : Image) : List GlobalData := i.sections.map Section.global

/-- What resolution looks things up in. -/
structure Resolver where
  image : Image
  store : Store
  /-- The names of the functions by their entries. -/
  functions : AddrMap String

namespace Resolver

/-- The resolver for a module. -/
def ofModule (image : Image) (store : Store) (m : Module) : Resolver :=
  { image, store, functions := .ofList (m.functions.map fun f => (f.address, f.name)) }

/-- What a number stands for: a function, else an import, else a place in a section. -/
def classify (r : Resolver) (value : Word) : Option Operand :=
  match r.functions.get? value with
  | some name => some (.functionRef name value)
  | none =>
    match r.image.imports.get? value with
    | some i => some (.importRef i.name value)
    | none =>
      (r.image.sectionAt? value).map fun s => .dataRef s.globalName (value - s.address) value

/-- The operand that stands in the place of the given one. -/
def replaceOperand (r : Resolver) : Operand → Operand
  | .const value => (r.classify value).getD (.const value)
  | o => o

/-- Whether the operand is a number that stands for something. -/
def isReplaced (r : Resolver) : Operand → Bool
  | .const value => (r.classify value).isSome
  | _ => false

/-- Put references in the places of all numbers that stand for something. -/
def replaceInBlock (r : Resolver) (b : CodeBlock) : CodeBlock :=
  { b with insts := b.insts.map (Inst.mapOperands r.replaceOperand) }

/-- Put references in the places of all numbers that stand for something. -/
def replaceInFunc (r : Resolver) (f : Func) : Func :=
  { f with blocks := f.blocks.map r.replaceInBlock }

/-- How many operands of a list of functions are replaced. -/
def countReplaced (r : Resolver) (functions : List Func) : Nat :=
  ((functions.flatMap Func.insts).flatMap Inst.operands).countP r.isReplaced

end Resolver

/-- The address that an instruction accesses. -/
def Inst.accessed? : Inst → Option Operand
  | .load _ addr _ => some addr
  | .store addr _ _ => some addr
  | _ => none

end FlowRecovery
