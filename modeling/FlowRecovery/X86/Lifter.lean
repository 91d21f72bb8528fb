/-
The x86 lifter.

A unit is a run of instructions up to the first that ends a unit, the limit on
their number, or an address where nothing can be decoded.  It never reaches
behind the section that it starts in.

A limit on the number of instructions lies between 1 and 4096.  Only one lifter
at a time is in use (`Pool`).
-/
import FlowRecovery.X86.Lowering

namespace FlowRecovery.X86

/-- The greatest limit on the instructions of a unit. -/
def maxLimit : Nat := 4096

/-- The limit on the instructions of a unit unless another is given. -/
def defaultLimit : Nat := 64

/-- The nearest limit that is allowed. -/
def clampLimit (n : Nat) : Nat := max 1 (min n maxLimit)

/-- The greatest length of an instruction in bytes. -/
def maxInsnSize : Nat := 15

/-- At most so many instructions from an address on, none of which reaches behind
`bound` or follows one that ends a unit. -/
def insns (decode : Decoder) (bound : Nat) : Nat → Addr → List (Addr × Insn)
  | 0, _ => []
  | n + 1, pc =>
    match decode pc with
    | none => []
    | some i =>
      if pc.toNat + i.size.toNat ≤ bound then
        (pc, i) :: if i.endsUnit then [] else insns decode bound n (pc + i.size)
      else []

/-- The code of instructions up to the first that ends a unit; `next` is where
control goes if none does. -/
def lowerAll (arch : Arch) (next : Addr) : List (Addr × Insn) → Emit (BlockKind × Operand)
  | [] => pure (.fallthrough, .pc next)
  | (pc, i) :: rest => do
    let next := pc + i.size
    match ← Frame.lower { arch, pc, next } i with
    | some ending => pure ending
    | none => lowerAll arch next rest

/-- The first address behind instructions that start at the given one. -/
def behind (a : Addr) (l : List (Addr × Insn)) : Addr :=
  match l.getLast? with
  | some (pc, i) => pc + i.size
  | none => a

/-- How many bytes from an address in the section on a unit may take. -/
def window (s : Section) (limit : Nat) (a : Addr) : Nat :=
  min (s.limit - a).toNat (maxInsnSize * limit)

/-- The instructions of the unit at an address. -/
def unitInsns (decode : Decoder) (image : Image) (limit : Nat) (a : Addr) :
    Except LiftFault (List (Addr × Insn)) :=
  match (image.sectionAt? a).filter (·.executable) with
  | none => .error (.invalidAddress a)
  | some s =>
    if (image.readable? a (window s limit a)).isNone then .error (.invalidAddress a)
    else
      match insns decode (a.toNat + window s limit a) limit a with
      | [] => .error (.invalidInstruction a)
      | l => .ok l

/-- The unit of the instructions that start at an address. -/
def unitOf (arch : Arch) (a : Addr) (l : List (Addr × Insn)) : Lifted :=
  let code := lowerAll arch a l
  { address := a, size := behind a l - a, kind := (code 0).value.1
    body := (do pure (← code).2 : Emit Operand).finish }

/-- Lift the unit at an address. -/
def lift (decode : Decoder) (image : Image) (limit : Nat) : LiftFn := fun a =>
  (unitInsns decode image limit a).map (unitOf image.arch a)

/-- One lifter of a pool. -/
structure PoolLifter where
  limit : Nat
  active : Bool := false
  deriving DecidableEq, Repr, Inhabited

/-- What the lifter answers; nothing is lifted unless it is in use. -/
def PoolLifter.fn (l : PoolLifter) (decode : Decoder) (image : Image) : LiftFn := fun a =>
  if l.active then lift decode image l.limit a else .error .notReady

/-- Lifters by name, of which at most one is in use. -/
structure Pool where
  lifters : List (String × PoolLifter) := []
  deriving DecidableEq, Repr, Inhabited

namespace Pool

/-- The lifter with the name. -/
def get? (p : Pool) (name : String) : Option PoolLifter := p.lifters.lookup name

/-- Whether a lifter is in use. -/
def inUse (p : Pool) : Bool := p.lifters.any (·.2.active)

/-- Put a lifter in the place of the one with the name. -/
def put (p : Pool) (name : String) (l : PoolLifter) : Pool :=
  { lifters := (name, l) :: p.lifters.filter (·.1 != name) }

/-- Remove the lifter with the name. -/
def drop (p : Pool) (name : String) : Pool := { lifters := p.lifters.filter (·.1 != name) }

/-- Take the lifter with the name into use. -/
def open? (p : Pool) (name : String) (l : PoolLifter) : Except LiftFault Pool :=
  if p.inUse then .error .busy else .ok (p.put name { l with active := true })

/-- Give the lifter with the name back. -/
def close (p : Pool) (name : String) (l : PoolLifter) : Pool := p.put name { l with active := false }

end Pool

end FlowRecovery.X86
