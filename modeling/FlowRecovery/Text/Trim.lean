/-
Taking repeated text off the front.
-/

namespace FlowRecovery.Text

/-- The text behind the leading copies of `lead`. -/
def dropLeading (lead : List Char) (cs : List Char) : List Char :=
  if _h : lead ≠ [] ∧ lead.isPrefixOf cs then dropLeading lead (cs.drop lead.length) else cs
  termination_by cs.length
  decreasing_by
    have h1 := (List.isPrefixOf_iff_prefix.mp _h.2).length_le
    have h2 := List.length_pos_iff.mpr _h.1
    rw [List.length_drop]
    omega

/-- The text behind the leading copies of `lead`, as a string. -/
def dropLeadingStr (lead s : String) : String := String.ofList (dropLeading lead.toList s.toList)

end FlowRecovery.Text
