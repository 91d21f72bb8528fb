/-
From lifted units to blocks.

Classification puts a marker in front of the first `setPc` of every program
counter, turns the raw branch of call and return units into the matching marker,
and computes the outgoing edges.  A call to the instruction behind it is no call
but a way to read the program counter, and falls through.

* `classified_of_classify` — what the block of a unit is, field by field.
-/
import FlowRecovery.Block

namespace FlowRecovery

namespace Lifted

/-- Put a marker in front of the first `setPc` of every program counter not in `seen`. -/
def mark (seen : AddrSet) : List Inst → List Inst
  | [] => []
  | .setPc pc :: rest =>
    if pc ∈ seen then .setPc pc :: mark seen rest
    else .marker pc :: .setPc pc :: mark (seen.insert pc) rest
  | i :: rest => i :: mark seen rest

/-- Whether the instruction moves the program counter. -/
def isSetPc : Inst → Bool
  | .setPc _ => true
  | _ => false

/-- The marker that stands for the raw branch of a call or return unit. -/
def transferMarker (kind : BlockKind) (target : Operand) : Inst :=
  if kind = .ret then .returnMarker target
  else .callMarker target (kind = .call && target.pc?.isSome) .env

/-- Turn the raw branch of a call or return unit into its marker. -/
def markTransfer (kind : BlockKind) (b : Body) : Option Body :=
  if kind.isCall || kind = .ret then
    match b.branchIndex?, b.branchTarget? with
    | some n, some target => some { b with insts := b.insts.set n (transferMarker kind target) }
    | _, _ => none
  else some b

/-- Whether control goes to the targets of the raw branch. -/
def followsBranch : BlockKind → Bool
  | .fallthrough => true
  | .jump => true
  | .condJump => true
  | .condJumpIndirect => true
  | .repeatedOp => true
  | _ => false

/-- Where control may go from a unit of the given kind that ends at `limit`. -/
def successors (kind : BlockKind) (targets : List Addr) (limit : Addr) : AddrSet :=
  let next := if followsBranch kind then AddrSet.ofList targets else ∅
  if kind.fallsThrough then next.insert limit else next

/-- The body of a unit with its markers. -/
def marked (u : Lifted) : Body := { u.body with insts := mark ∅ u.body.insts }

end Lifted

namespace Block

/-- The block of a lifted unit. -/
def classify (u : Lifted) : Checked BlockError Block := do
  let limit ← checkedAdd u.address u.size
  if !u.body.insts.any Lifted.isSetPc then Checked.refuse (.missingMarkers u.address)
  let targets := u.marked.staticTargets
  let kind := if u.kind = .call ∧ targets = [limit] then .fallthrough else u.kind
  match Lifted.markTransfer kind u.marked with
  | none => Checked.refuse (.verify (.block u.address (.noBranch kind)))
  | some body =>
    let halts := body.hasHalt
    let block : Block :=
      { address := u.address, size := u.size, kind, body, halts
        successors := if halts then ∅ else Lifted.successors kind targets limit
        callTargets := if kind.isCall then .ofList targets else ∅ }
    Checked.lift ((body.verify u.address u.size).mapError .verify)
    return block

/-- The block of the unit that a lifter answers with. -/
def ofAnswer (answer : Except LiftFault Lifted) : Checked BlockError Block := do
  classify (← Checked.lift (answer.mapError .lift))

/-- Lift the unit at an address and make a block of it. -/
def lift (lifter : LiftFn) (a : Addr) : Checked BlockError Block := ofAnswer (lifter a)

/-- What the block of a unit is. -/
structure Classified (u : Lifted) (b : Block) : Prop where
  fits : Fits u.address u.size
  positions : u.body.insts.any Lifted.isSetPc = true
  address : b.address = u.address
  size : b.size = u.size
  kind : b.kind = if u.kind = .call ∧ u.marked.staticTargets = [u.address + u.size]
    then .fallthrough else u.kind
  body : Lifted.markTransfer b.kind u.marked = some b.body
  halts : b.halts = b.body.hasHalt
  successors : b.successors = if b.halts then ∅
    else Lifted.successors b.kind u.marked.staticTargets (u.address + u.size)
  callTargets : b.callTargets = if b.kind.isCall then .ofList u.marked.staticTargets else ∅
  checked : b.body.check b.address b.size = .ok ()

/-- A classification that succeeds yields the block of the unit. -/
theorem classified_of_classify {u : Lifted} {b : Block} (h : classify u = .ok b) :
    Classified u b := by
  unfold classify at h
  obtain ⟨limit, hl, h⟩ := Checked.bind_eq_ok.mp h
  have hfits : Fits u.address u.size := by
    have := limit.toNat_lt
    rw [checkedAdd_eq_ok] at hl
    show u.address.toNat + u.size.toNat < _
    omega
  obtain rfl : u.address + u.size = limit := by
    rw [checkedAdd, if_pos hfits] at hl
    exact Except.ok.inj hl
  by_cases hp : u.body.insts.any Lifted.isSetPc = true
  · simp only [hp, Bool.not_true, Bool.false_eq_true, if_false] at h
    split at h
    · exact absurd h Checked.refuse_ne_ok
    · next body hbody =>
      obtain ⟨_, hcheck, h⟩ := Checked.bind_eq_ok.mp h
      rw [Checked.lift_eq_ok, Checked.mapError_eq_ok, Body.verify_eq_ok] at hcheck
      cases h
      exact ⟨hfits, hp, rfl, rfl, rfl, hbody, rfl, rfl, rfl, hcheck⟩
  · simp only [hp, Bool.not_false, if_true] at h
    exact absurd h Checked.refuse_ne_ok

end Block

end FlowRecovery
