/-
Bodies: the straight-line code of one lifted unit.

A body is a list of instructions and the first temporary that is free.  Its
markers are the places where machine instructions begin; `Body.cutBefore?` and
`Body.cutFrom?` cut a body in two at such a place.  The code before the cut ends
with a branch to the cut.  The code from the cut on may still read temporaries
that were defined before it; their definitions, and what those read in turn, are
carried over and stand right behind the leading marker.
-/
import FlowRecovery.AddrMap
import FlowRecovery.Inst

namespace FlowRecovery

/-- The index of the last element that passes a test. -/
def lastIdx? {α : Type} (p : α → Bool) : List α → Option Nat
  | [] => none
  | a :: l =>
    match lastIdx? p l with
    | some n => some (n + 1)
    | none => if p a then some 0 else none

/-- The program counter of a marker. -/
def Inst.marker? : Inst → Option Addr
  | .marker pc => some pc
  | _ => none

/-- The target of a raw branch. -/
def Inst.branch? : Inst → Option Operand
  | .branch target => some target
  | _ => none

/-- The code of one lifted unit. -/
structure Body where
  insts : List Inst
  /-- The first temporary that no instruction uses. -/
  nextTemp : Temp
  deriving DecidableEq, Repr, Inhabited

namespace Body

/-- The markers in a list of instructions, with their positions counted from `n`. -/
def markersFrom (n : Nat) : List Inst → List (Addr × Nat)
  | [] => []
  | .marker pc :: l => (pc, n) :: markersFrom (n + 1) l
  | _ :: l => markersFrom (n + 1) l

/-- The instruction boundaries: the position of the last marker of each program counter. -/
def boundaries (b : Body) : AddrMap Nat := AddrMap.ofList (markersFrom 0 b.insts)

/-- The first instruction that defines the temporary. -/
def definition? (b : Body) (t : Temp) : Option Inst := b.insts.find? (·.def? == some t)

/-- The position of the last raw branch. -/
def branchIndex? (b : Body) : Option Nat := lastIdx? (·.branch?.isSome) b.insts

/-- The target of the last raw branch. -/
def branchTarget? (b : Body) : Option Operand :=
  b.branchIndex?.bind fun n => (b.insts[n]?).bind Inst.branch?

/-- Whether execution stops in the body. -/
def hasHalt (b : Body) : Bool := b.insts.contains .halt

/-- The numbers embedded in the code, in order. -/
def constants (b : Body) : List Word := (b.insts.flatMap Inst.operands).filterMap Operand.const?

/-- The program-counter literals that the raw branch may transfer to.  Of a
conditional transfer the first is where it goes when the condition holds. -/
def staticTargets (b : Body) : List Addr :=
  match b.branchTarget? with
  | none => []
  | some (.pc value) => [value]
  | some target =>
    match target.temp?.bind b.definition? with
    | some (.select _ _ ifTrue ifFalse) => [ifTrue, ifFalse].filterMap Operand.pc?
    | _ => []

/-- The code before the marker at `pc`, closed with a branch to `pc`. -/
def cutBefore? (b : Body) (pc : Addr) : Option Body :=
  (b.boundaries.get? pc).map fun n =>
    { b with insts := b.insts.take n ++ [.branch (.pc pc), .exit] }

/-- The definitions among `earlier`, the latest first, that make the temporaries in
`needed`, and what those read in turn; put in front of `carried` in their order. -/
def carry (needed : List Temp) (carried : List Inst) : List Inst → List Inst
  | [] => carried
  | i :: earlier =>
    match i.def? with
    | some t =>
      if t ∈ needed then carry (needed.filter (· ≠ t) ++ i.uses) (i :: carried) earlier
      else carry needed carried earlier
    | none => carry needed carried earlier

/-- The temporaries that the code reads and does not define. -/
def openTemps (insts : List Inst) : List Temp :=
  let defined := insts.filterMap Inst.def?
  (insts.flatMap Inst.uses).filter (!defined.contains ·)

/-- The code from the marker at `pc` on, with the definitions that it still reads
right behind that marker. -/
def cutFrom? (b : Body) (pc : Addr) : Option Body :=
  (b.boundaries.get? pc).map fun n =>
    let rest := b.insts.drop n
    { b with
      insts := rest.take 1 ++ carry (openTemps rest) [] (b.insts.take n).reverse ++ rest.drop 1 }

/-- The body with `base` added to every temporary. -/
def shift {ε : Type} (base : Temp) (b : Body) : Checked ε Body := do
  let insts ← b.insts.mapM (Inst.shift base)
  let nextTemp ← checkedAdd32 b.nextTemp base
  return { insts, nextTemp }

end Body

end FlowRecovery
