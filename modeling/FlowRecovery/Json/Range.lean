/-
Which decimal numbers stay in the range of double precision.

The leading digits that fit into a word are taken as a whole number and scaled by a
power of ten, both rounded to 53 binary digits.  Digits that do not fit only count
for the power.
-/
import FlowRecovery.Json

namespace FlowRecovery.Json

/-- The number to the nearest with 53 binary digits, a tie to the even one. -/
def roundBinary (n : Nat) : Nat :=
  if n.log2 < 53 then n
  else
    let unit := Nat.pow 2 (n.log2 - 52)
    let q := n / unit
    let twice := 2 * (n % unit)
    if twice < unit ∨ (twice = unit ∧ q % 2 = 0) then q * unit else (q + 1) * unit

/-- What numbers of double precision round to below: half a unit behind the largest one. -/
def rangeLimit : Nat := Nat.pow 2 1024 - Nat.pow 2 970

/-- Whether a whole number, scaled by a power of ten, is in range. -/
def scaledInRange (n : Nat) (exponent : Int) : Bool :=
  n = 0 || exponent < 0 ||
    (exponent ≤ 308
      && roundBinary n * roundBinary (Nat.pow 10 exponent.toNat) < rangeLimit)

/-- Extend a number by digits as long as it is a word; the second number says how many
digits are left. -/
def extend (n : Nat) : List Char → Nat × Nat
  | [] => (n, 0)
  | d :: ds =>
    let next := n * 10 + (d.toNat - '0'.toNat)
    if next < UInt64.size then extend next ds else (n, ds.length + 1)

/-- The sign and the digits of an exponent. -/
def exponentParts : List Char → Bool × List Char
  | '-' :: ds => (true, ds)
  | '+' :: ds => (false, ds)
  | ds => (false, ds)

/-- Whether a number given by the digits of its whole part, its fraction and its exponent is
in range. -/
def inRange (whole part exponent : List Char) : Bool :=
  let (n, left) := extend 0 whole
  let (n, rest) := extend n part
  let shift : Int := (left : Int) - ((part.length - rest : Nat) : Int)
  let (negative, digits) := exponentParts exponent
  let e := Nat.ofDigitChars 10 digits 0
  if negative then scaledInRange n (shift - (e : Int)) else scaledInRange n (shift + (e : Int))

end FlowRecovery.Json
