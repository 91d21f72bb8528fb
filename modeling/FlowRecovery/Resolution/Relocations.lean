/-
Relocations inside explored code.

A relocation belongs to the machine instruction that covers its site.  In every
block that has this instruction its value must be found as a number between the
marker of the instruction and the next one; the first such number is replaced.
-/
import FlowRecovery.Resolution

namespace FlowRecovery

/-- Replace the first operand equal to the given one. -/
def Inst.replaceOperand (old new : Operand) (i : Inst) : Option Inst :=
  if i.operands.contains old then some (i.setOperands (i.operands.replace old new)) else none

/-- Replace the first operand equal to the given one up to the next marker. -/
def replaceInSpan (old new : Operand) : List Inst → Option (List Inst)
  | [] => none
  | i :: rest =>
    if i.marker?.isSome then none
    else
      match i.replaceOperand old new with
      | some i => some (i :: rest)
      | none => (replaceInSpan old new rest).map (i :: ·)

/-- What becomes of a number in a list of instructions. -/
inductive Site where
  /-- The instruction is not there. -/
  | absent
  /-- The instruction is there without the number. -/
  | missing
  /-- The number was found; these are the instructions with it replaced. -/
  | found (insts : List Inst)
  deriving DecidableEq, Repr

/-- Put instructions back in front of those that were searched. -/
def Site.behind (i : Inst) : Site → Site
  | .found insts => .found (i :: insts)
  | s => s

/-- Replace a number in the instruction at `pc`. -/
def replaceAt (pc : Addr) (old new : Operand) : List Inst → Site
  | [] => .absent
  | i :: rest =>
    if i.marker? = some pc then
      match replaceInSpan old new rest with
      | some rest => .found (i :: rest)
      | none => .missing
    else (replaceAt pc old new rest).behind i

namespace Resolver

/-- Patch one block for a relocation; the state says whether its instruction was found. -/
def patchBlock (r : Resolver) (reloc : Relocation) (pc : Addr) (located : Bool) (b : CodeBlock) :
    Swept ResolveError Bool CodeBlock :=
  let value := reloc.value
  let new := r.classify value
  match replaceAt pc (.const value) (new.getD (.const value)) b.insts with
  | .absent => { state := located, value := b }
  | .missing =>
    { state := located, value := b, stop := some (.refused (.valueNotFound reloc.site value)) }
  | .found insts =>
    if new.isSome then { state := true, value := { b with insts } }
    else
      { state := located, value := b
        stop := some (.refused (.unresolvedRelocation reloc.site value)) }

/-- The instruction that a relocation belongs to, if it was explored. -/
def relocated? {ε : Type} (r : Resolver) (reloc : Relocation) : Checked ε (Option Addr) := do
  match ← r.store.findContaining reloc.site with
  | some b => b.instructionAt reloc.site
  | none => return none

/-- Patch all functions for a relocation and count it. -/
def patch (r : Resolver) (stats : ResolveStats) (functions : List Func) (reloc : Relocation) :
    Swept ResolveError ResolveStats (List Func) :=
  let skipped := { stats with skippedRelocations := stats.skippedRelocations + 1 }
  match r.relocated? reloc with
  | .error e => { state := stats, value := functions, stop := some e }
  | .ok none => { state := skipped, value := functions }
  | .ok (some pc) =>
    let swept := sweep (Func.sweepBlocks (r.patchBlock reloc pc)) false functions
    let counted :=
      if swept.state then { stats with relocations := stats.relocations + 1 } else skipped
    { swept with state := counted }

/-- Patch all functions for relocations in order. -/
def patchAll (r : Resolver) (stats : ResolveStats) (functions : List Func) :
    List Relocation → Swept ResolveError ResolveStats (List Func)
  | [] => { state := stats, value := functions }
  | reloc :: rest =>
    let swept := r.patch stats functions reloc
    match swept.stop with
    | some _ => swept
    | none => patchAll r swept.state swept.value rest

end Resolver

end FlowRecovery
