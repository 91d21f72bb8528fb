/-
Tables of texts that each end with a zero.
-/
import FlowRecovery.Image.Required

namespace FlowRecovery

/-- A table of texts that each end with a zero, looked up by their offsets. -/
structure StringTable where
  bytes : Bytes := #[]
  deriving DecidableEq, Repr, Inhabited

namespace StringTable

/-- Behind the first zero there are fewer bytes than before. -/
theorem length_afterZero_lt (b : UInt8) (bs : List UInt8) :
    (((b :: bs).dropWhile (· ≠ 0)).drop 1).length < (b :: bs).length := by
  have h : ∀ l : List UInt8, (l.dropWhile (· ≠ 0)).length ≤ l.length := fun l =>
    (List.dropWhile_sublist _).length_le
  have := h (b :: bs)
  simp only [List.length_drop, List.length_cons] at *
  omega

/-- How many bytes are left at the first of the texts that is not one. -/
def unreadable? : List UInt8 → Option Nat
  | [] => none
  | b :: bs =>
    if (Binary.text? ((b :: bs).takeWhile (· ≠ 0))).isNone then some (b :: bs).length
    else unreadable? (((b :: bs).dropWhile (· ≠ 0)).drop 1)
  termination_by bs => bs.length
  decreasing_by exact length_afterZero_lt b bs

/-- Read a table; all of it has to be text. -/
def read (b : Bytes) (offset size : Nat) : Checked ImageError StringTable := do
  let overflowed := UInt64.size ≤ offset + size
  let bytes ← needed (.textTable size offset b.size overflowed) (Binary.slice? b offset size)
  match unreadable? bytes.toList with
  | none => return { bytes }
  | some left => malformed (.notText left)

/-- The text at an offset; there is an empty one behind an unfinished last text. -/
def get? (t : StringTable) (offset : Nat) : Option String :=
  if offset = t.bytes.size then
    match t.bytes.back? with
    | some last => if last ≠ 0 then some "" else none
    | none => none
  else Binary.textAt? t.bytes offset

/-- The texts in order, where bytes behind the last zero are a text too. -/
def textsOf : List UInt8 → List String
  | [] => []
  | b :: bs =>
    (Binary.text? ((b :: bs).takeWhile (· ≠ 0))).toList
      ++ textsOf (((b :: bs).dropWhile (· ≠ 0)).drop 1)
  termination_by bs => bs.length
  decreasing_by exact length_afterZero_lt b bs

/-- The texts of a table. -/
def texts (t : StringTable) : List String := textsOf t.bytes.toList

end StringTable

end FlowRecovery
