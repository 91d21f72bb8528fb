/-
Sets of characters given as closed ranges of code points.
-/

namespace FlowRecovery.Text

/-- Whether the character lies in one of the ranges. -/
def inRanges (ranges : List (Nat × Nat)) (c : Char) : Bool :=
  ranges.any fun r => r.1 ≤ c.toNat && c.toNat ≤ r.2

end FlowRecovery.Text
