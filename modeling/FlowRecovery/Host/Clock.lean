/-
The time of day as a text in the form of RFC 3339.
-/
import FlowRecovery.Binary64

namespace FlowRecovery.Clock

/-- Year, month and day of the day so many days behind the first of January 1970. -/
def civil (days : Nat) : Nat × Nat × Nat :=
  -- Years are counted from the first of March, in eras of 400 years.
  let z := days + 719468
  let era := z / 146097
  let day := z % 146097
  let year := (day - day / 1460 + day / 36524 - day / 146096) / 365
  let ofYear := day - (365 * year + year / 4 - year / 100)
  let shifted := (5 * ofYear + 2) / 153
  let month := if shifted < 10 then shifted + 3 else shifted - 9
  (year + 400 * era + (if month ≤ 2 then 1 else 0), month, ofYear - (153 * shifted + 2) / 5 + 1)

/-- Digits with zeros in front up to the width. -/
def digits (width n : Nat) : String := String.ofList (Binary64.paddedDigits width n)

/-- The part of a second: three, six or nine digits, or none. -/
def fraction (nanos : Nat) : String :=
  if nanos = 0 then ""
  else if nanos % 1000000 = 0 then "." ++ digits 3 (nanos / 1000000)
  else if nanos % 1000 = 0 then "." ++ digits 6 (nanos / 1000)
  else "." ++ digits 9 nanos

/-- The time so many nanoseconds behind the start of 1970. -/
def rfc3339 (nanos : Nat) : String :=
  let seconds := nanos / 1000000000
  let (year, month, day) := civil (seconds / 86400)
  let time := seconds % 86400
  digits 4 year ++ "-" ++ digits 2 month ++ "-" ++ digits 2 day ++ "T" ++ digits 2 (time / 3600)
    ++ ":" ++ digits 2 (time / 60 % 60) ++ ":" ++ digits 2 (time % 60)
    ++ fraction (nanos % 1000000000) ++ "+00:00"

end FlowRecovery.Clock
