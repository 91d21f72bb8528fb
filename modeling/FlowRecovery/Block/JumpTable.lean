/-
Jump tables.

An indirect jump through a table loads its destination from an address that is a
sum with a constant in it; that constant is the base of the table.  A destination
loaded from a bare constant is the slot of an import and no table.
-/
import FlowRecovery.Block

namespace FlowRecovery.Block

/-- The first constant in a chain of at most `depth` sums. -/
def constantBase? (b : Body) : Nat → Operand → Option Word
  | _, .const value => some value
  | 0, _ => none
  | depth + 1, .temp t =>
    match b.definition? t with
    | some (.binary _ .add lhs rhs) =>
      (constantBase? b depth lhs).orElse fun _ => constantBase? b depth rhs
    | _ => none
  | _ + 1, _ => none

/-- Of a conditional transfer, the arm that is no program-counter literal. -/
def computedArm (b : Body) (target : Operand) : Operand :=
  match target.temp?.bind b.definition? with
  | some (.select _ _ ifTrue ifFalse) => if ifTrue.pc?.isSome then ifFalse else ifTrue
  | _ => target

/-- The base of the table that the block's indirect jump goes through. -/
def jumpTableBase? (b : Block) : Option Addr :=
  if b.kind = .jumpIndirect ∨ b.kind = .condJumpIndirect then do
    let target := computedArm b.body (← b.body.branchTarget?)
    match (← target.temp?.bind b.body.definition?) with
    | .load _ (.temp t) _ => constantBase? b.body 8 (.temp t)
    | _ => none
  else none

end FlowRecovery.Block
