/-
Basic blocks.

A block is a lifted unit with its instruction boundaries marked and its outgoing
edges known.  It covers the addresses from `address` up to `limit`, which has to
be a word: the operations that compute it can overflow.

`Block.classify` makes a block of a unit and `Block.split` cuts one in two; the
cut is at an instruction boundary inside the block, and both halves are checked
against the contract of lifted units again.
-/
import FlowRecovery.Body.Contract

namespace FlowRecovery

/-- A basic block. -/
structure Block where
  address : Addr
  size : Word
  kind : BlockKind
  body : Body
  /-- The addresses known to come next; targets of calls do not count. -/
  successors : AddrSet := ∅
  callTargets : AddrSet := ∅
  /-- Execution stops in the block; nothing comes next. -/
  halts : Bool := false
  deriving DecidableEq, Repr

/-- Why a block could not be made or split. -/
inductive BlockError where
  | lift (fault : LiftFault)
  | missingMarkers (address : Addr)
  | notSplittable (address at_ : Addr)
  | verify (error : VerifyError)
  deriving DecidableEq, Repr

namespace BlockError

/-- The text of the error. -/
def message : BlockError → String
  | .lift fault => fault.message
  | .missingMarkers a => "lifted unit at " ++ Text.addr a ++ " carries no instruction boundary"
  | .notSplittable a at_ =>
    "block at " ++ Text.addr a ++ " cannot be split at " ++ Text.addr at_
  | .verify error => error.message

/-- The address that the error is about, if it names one. -/
def address? : BlockError → Option Addr
  | .lift (.invalidAddress a) => some a
  | .lift (.invalidInstruction a) => some a
  | .missingMarkers a => some a
  | .notSplittable a _ => some a
  | .verify (.block a _) => some a
  | _ => none

end BlockError

namespace Block

variable {ε : Type}

/-- The first address behind the block. -/
def limit (b : Block) : Checked ε Addr := checkedAdd b.address b.size

/-- Whether the block covers the address. -/
def contains (b : Block) (a : Addr) : Checked ε Bool :=
  if a < b.address then .ok false
  else b.limit.map fun limit => decide (a < limit)

/-- The instruction boundaries of the block. -/
def boundaries (b : Block) : AddrMap Nat := b.body.boundaries

/-- The address of the instruction that covers the given address. -/
def instructionAt (b : Block) (a : Addr) : Checked ε (Option Addr) := do
  if ← b.contains a then return (b.boundaries.lastUpTo? a).map (·.1) else return none

/-- Whether the instruction does nothing but say where it is. -/
def isPosition : Inst → Bool
  | .setPc _ => true
  | .marker _ => true
  | _ => false

/-- Whether the block is a single indirect jump.  A leading instruction that lifts
to nothing does not count; its marker has to come first. -/
def isImportStub (b : Block) : Checked ε Bool :=
  if b.kind = .jumpIndirect then
    match b.boundaries.values with
    | [_] => .ok true
    | [first, second] =>
      if first + 1 ≤ second then
        .ok (((b.body.insts.take second).drop (first + 1)).all isPosition)
      else .error .overflow
    | _ => .ok false
  else .ok false

/-- The address that an import stub loads its destination from. -/
def stubSlot (b : Block) : Checked ε (Option Addr) := do
  if ← b.isImportStub then
    match (b.body.branchTarget?.bind Operand.temp?).bind b.body.definition? with
    | some (.load _ addr _) => return addr.staticAddress?
    | _ => return none
  else return none

/-- Split the block at an instruction boundary.  The first half falls through into
the second, which keeps the kind and the edges of the block. -/
def split (b : Block) (at_ : Addr) : Checked BlockError (Block × Block) := do
  if b.boundaries.size < 2 ∨ at_ = b.address then
    Checked.refuse (.notSplittable b.address at_)
  match b.body.cutBefore? at_, b.body.cutFrom? at_ with
  | some before, some from_ =>
    let firstSize ← checkedSub at_ b.address
    let limit ← b.limit
    let secondSize ← checkedSub limit at_
    let first : Block :=
      { address := b.address, size := firstSize, kind := .fallthrough, body := before
        successors := .singleton at_ }
    let second : Block := { b with address := at_, size := secondSize, body := from_ }
    Checked.lift ((first.body.verify first.address first.size).mapError .verify)
    Checked.lift ((second.body.verify second.address second.size).mapError .verify)
    return (first, second)
  | _, _ => Checked.refuse (.notSplittable b.address at_)

end Block

end FlowRecovery
