/-
The fewest decimal digits that read back as a binary number.

The reals that round to a number form an interval around it; its ends belong to
it when the mantissa is even.  For one digit, two digits and so on the two
neighbours of the number on that decimal grid are tried, and the first grid with
a neighbour in the interval wins, of two the nearer.
-/
import FlowRecovery.Binary64

namespace FlowRecovery.Binary64

/-- Half the distance to the number below, in quarters of the last place: it is
shorter where the exponent changes. -/
def lowerReach (x : Binary64) : Nat :=
  if 2 * x.mantissa = mantissaBound ∧ -1074 < x.exponent then 1 else 2

/-- `n` quarters of the last place as a numerator and a denominator. -/
def quarters (x : Binary64) (n : Nat) : Nat × Nat :=
  let e := x.exponent - 2
  if e < 0 then (n, Nat.pow 2 e.natAbs) else (n * Nat.pow 2 e.natAbs, 1)

/-- `c * 10 ^ e` as a numerator and a denominator. -/
def decimalRatio (c : Nat) (e : Int) : Nat × Nat :=
  if e < 0 then (c, Nat.pow 10 e.natAbs) else (c * Nat.pow 10 e.natAbs, 1)

/-- Whether the first quotient is below the second, or equal to it where that is allowed. -/
def below (allowEqual : Bool) (a b : Nat × Nat) : Bool :=
  let l := a.1 * b.2
  let r := b.1 * a.2
  l < r || (allowEqual && l == r)

/-- Whether `c * 10 ^ e` reads back as the number. -/
def readsAs (x : Binary64) (c : Nat) (e : Int) : Bool :=
  let closed := x.mantissa % 2 == 0
  let v := decimalRatio c e
  below closed (x.quarters (4 * x.mantissa - x.lowerReach)) v
    && below closed v (x.quarters (4 * x.mantissa + 2))

/-- The place of the first digit: the number is below `10 ^ p` and not below `10 ^ (p - 1)`. -/
def firstPlace (x : Binary64) : Int :=
  let (num, den) := x.ratio
  if den ≤ num then (Nat.toDigits 10 (num / den)).length
  else 1 - (((List.range 400).find? fun j => den ≤ num * Nat.pow 10 j).getD 0 : Nat)

/-- The neighbours of the number on the grid `10 ^ e`, the nearer first. -/
def neighbours (x : Binary64) (e : Int) : List Nat :=
  let (num, den) := x.ratio
  let unit := Nat.pow 10 e.natAbs
  let (n, d) := if e < 0 then (num * unit, den) else (num, den * unit)
  let q := n / d
  if 2 * (n % d) ≤ d then [q, q + 1] else [q + 1, q]

/-- The shortest digits, and the place of the last of them. -/
def digits (x : Binary64) : Nat × Int :=
  if x.mantissa = 0 then (0, 0)
  else
    let p := x.firstPlace
    let found := (List.range 17).findSome? fun (n : Nat) =>
      let e := p - (n + 1 : Nat)
      ((x.neighbours e).find? fun c => x.readsAs c e).map fun c => (c, e)
    found.getD (0, 0)

/-- Drop the zeros at the end of digits. -/
def dropZeros (ds : List Char) : List Char := (ds.reverse.dropWhile (· == '0')).reverse

/-- The shortest digits as a text: positional with a fraction of at least one
digit while the first place lies between `-4` and `16`, with an exponent otherwise. -/
def shortest (x : Binary64) : String :=
  let (c, e) := x.digits
  let ds := match dropZeros (Nat.toDigits 10 c) with
    | [] => ['0']
    | ds => ds
  let k : Int := if c = 0 then 0 else e + ((Nat.toDigits 10 c).length - ds.length : Nat)
  let point : Int := ds.length + k
  let sign := if x.negative then "-" else ""
  let body :=
    if 0 ≤ k ∧ point ≤ 16 then String.ofList (ds ++ List.replicate k.natAbs '0') ++ ".0"
    else if 0 < point ∧ point ≤ 16 then
      String.ofList (ds.take point.natAbs) ++ "." ++ String.ofList (ds.drop point.natAbs)
    else if -5 < point ∧ point ≤ 0 then
      "0." ++ String.ofList (List.replicate point.natAbs '0' ++ ds)
    else
      let mark := "e" ++ (if point - 1 < 0 then "-" else "") ++ Text.decimal (point - 1).natAbs
      match ds with
      | [d] => d.toString ++ mark
      | ds => String.ofList (ds.take 1) ++ "." ++ String.ofList (ds.drop 1) ++ mark
  sign ++ body

end FlowRecovery.Binary64
