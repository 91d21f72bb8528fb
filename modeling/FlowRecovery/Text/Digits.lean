/-
Numbers as text.

Addresses are written in lower-case hexadecimal, with or without `0x`; counts are
written in decimal.  `readUnsigned?` is the one way numbers are read back: an
optional plus sign, at least one digit of the base, and a value below a bound.
-/
import FlowRecovery.Word

namespace FlowRecovery.Text

/-- The lower-case hexadecimal digits of a word, without leading zeros. -/
def hex (a : Word) : String := String.ofList (Nat.toDigits 16 a.toNat)

/-- A word in hexadecimal, after `0x`. -/
def addr (a : Word) : String := "0x" ++ hex a

/-- The decimal digits of a number. -/
def decimal (n : Nat) : String := String.ofList (Nat.toDigits 10 n)

/-- The value of an ASCII digit or letter, if it is a digit of the base. -/
def digitValue? (base : Nat) (c : Char) : Option Nat :=
  let v :=
    if '0' ≤ c ∧ c ≤ '9' then c.toNat - '0'.toNat
    else if 'a' ≤ c ∧ c ≤ 'z' then c.toNat - 'a'.toNat + 10
    else if 'A' ≤ c ∧ c ≤ 'Z' then c.toNat - 'A'.toNat + 10
    else base
  if v < base then some v else none

/-- Read further digits behind those that make `n`. -/
def readOn (base n : Nat) : List Char → Option Nat
  | [] => some n
  | c :: cs => (digitValue? base c).bind fun d => readOn base (n * base + d) cs

/-- Read one digit or more. -/
def readDigits? (base : Nat) : List Char → Option Nat
  | [] => none
  | cs => readOn base 0 cs

/-- Drop one leading plus sign. -/
def dropPlus : List Char → List Char
  | '+' :: cs => cs
  | cs => cs

/-- Read an optional plus sign and digits whose value is below the bound. -/
def readUnsigned? (base bound : Nat) (cs : List Char) : Option Nat :=
  (readDigits? base (dropPlus cs)).filter (· < bound)

/-- Read a word in the given base. -/
def readWord? (base : Nat) (cs : List Char) : Option Word :=
  (readUnsigned? base UInt64.size cs).map UInt64.ofNat

/-- Two lower-case hexadecimal digits. -/
def hexByte (b : UInt8) : List Char :=
  [Nat.digitChar (b.toNat / 16), Nat.digitChar (b.toNat % 16)]

/-- Bytes as pairs of hexadecimal digits. -/
def hexBytes (bs : Bytes) : String := String.ofList (bs.toList.flatMap hexByte)

/-- Read bytes from pairs of hexadecimal digits. -/
def readBytes? : List Char → Option (List UInt8)
  | [] => some []
  | a :: b :: rest => do
    let byte := (← digitValue? 16 a) * 16 + (← digitValue? 16 b)
    return UInt8.ofNat byte :: (← readBytes? rest)
  | _ => none

end FlowRecovery.Text
