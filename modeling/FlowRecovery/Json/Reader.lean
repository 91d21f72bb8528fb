/-
Reading JSON text.

`Json.parse?` reads one value with blanks around it and nothing else.  Objects
may repeat names here; what that means is left to the reader of the record.
Escapes may spell any character, characters beyond the first plane as a pair of
escapes; a string with half of such a pair is unreadable, and so is a number beyond
those of double precision.  Raw control characters are refused.

Every reader returns what it has read together with the text behind it.  The
nesting is followed with a bound, and the length of the text is always enough.
-/
import FlowRecovery.Json.Range

namespace FlowRecovery.Json

/-- The blanks that may stand around values. -/
def isBlank (c : Char) : Bool := c = ' ' || c = '\n' || c = '\t' || c = '\r'

/-- Drop leading blanks. -/
def skipBlanks (cs : List Char) : List Char := cs.dropWhile isBlank

/-- The character that a one-letter escape stands for. -/
def unescape? (c : Char) : Option Char :=
  if c = '"' then some '"'
  else if c = '\\' then some '\\'
  else if c = '/' then some '/'
  else if c = 'n' then some '\n'
  else if c = 't' then some '\t'
  else if c = 'r' then some '\r'
  else if c = 'b' then some '\x08'
  else if c = 'f' then some '\x0c'
  else none

/-- The value of four hexadecimal digits. -/
def hexQuad? (a b c d : Char) : Option Nat := Text.readOn 16 0 [a, b, c, d]

/-- The character spelled by two halves of a pair. -/
def pairChar? (high low : Nat) : Option Char :=
  if 0xDC00 ≤ low ∧ low < 0xE000 then
    some (Char.ofNat (0x10000 + (high - 0xD800) * 0x400 + (low - 0xDC00)))
  else none

/-- Read the rest of a string up to its closing quote; `acc` holds the characters
already read, the last one first.  The string is unreadable if it is not `sound`. -/
def readString (acc : List Char) (sound : Bool) : List Char → Option (Option String × List Char)
  | [] => none
  | '"' :: rest => some (if sound then some (String.ofList acc.reverse) else none, rest)
  | '\\' :: 'u' :: a :: b :: c :: d :: rest =>
    match hexQuad? a b c d with
    | none => none
    | some high =>
      if 0xD800 ≤ high ∧ high < 0xDC00 then
        match rest with
        | '\\' :: 'u' :: e :: f :: g :: h :: rest' =>
          match hexQuad? e f g h with
          | none => none
          | some low =>
            match pairChar? high low with
            | none => readString acc false rest'
            | some ch => readString (ch :: acc) sound rest'
        | rest => readString acc false rest
      else if 0xDC00 ≤ high ∧ high < 0xE000 then readString acc false rest
      else readString (Char.ofNat high :: acc) sound rest
  | '\\' :: c :: rest =>
    match unescape? c with
    | none => none
    | some ch => readString (ch :: acc) sound rest
  | c :: rest => if c.toNat < 0x20 ∨ c = '\\' then none else readString (c :: acc) sound rest

/-- Whether the character is a decimal digit. -/
def isDigit (c : Char) : Bool := '0' ≤ c && c ≤ '9'

/-- Read one digit or more. -/
def readDigits (cs : List Char) : Option (List Char × List Char) :=
  match cs.span isDigit with
  | ([], _) => none
  | (ds, rest) => some (ds, rest)

/-- Read a point and the digits of a fraction, if there are any. -/
def readFraction : List Char → Option (List Char × List Char)
  | '.' :: cs => (readDigits cs).map fun (ds, rest) => ('.' :: ds, rest)
  | cs => some ([], cs)

/-- Read an exponent, if there is one. -/
def readExponent : List Char → Option (List Char × List Char)
  | e :: cs =>
    if e = 'e' ∨ e = 'E' then
      match cs with
      | s :: cs' =>
        if s = '+' ∨ s = '-' then (readDigits cs').map fun (ds, rest) => (e :: s :: ds, rest)
        else (readDigits cs).map fun (ds, rest) => (e :: ds, rest)
      | [] => none
    else some ([], e :: cs)
  | [] => some ([], [])

/-- Whether the digits of a whole part start with a superfluous zero. -/
def paddedWithZero : List Char → Bool
  | '0' :: _ :: _ => true
  | _ => false

/-- Read a number without its sign. -/
def readMagnitude (negative : Bool) (cs : List Char) : Option (Json × List Char) := do
  let (whole, cs) ← readDigits cs
  if paddedWithZero whole then failure
  let (frac, cs) ← readFraction cs
  let (ex, cs) ← readExponent cs
  if frac = [] ∧ ex = [] then
    return (.int negative (Nat.ofDigitChars 10 whole 0), cs)
  else
    let text := whole ++ frac ++ ex
    if inRange whole (frac.drop 1) (ex.drop 1) then
      return (.fraction (String.ofList (if negative then '-' :: text else text)), cs)
    else return (.unreadable, cs)

/-- Read a number. -/
def readNumber : List Char → Option (Json × List Char)
  | '-' :: cs => readMagnitude true cs
  | cs => readMagnitude false cs

mutual

/-- Read a value that starts with the first character. -/
def readValue : Nat → List Char → Option (Json × List Char)
  | 0, _ => none
  | n + 1, cs =>
    match cs with
    | 'n' :: 'u' :: 'l' :: 'l' :: rest => some (.null, rest)
    | 't' :: 'r' :: 'u' :: 'e' :: rest => some (.bool true, rest)
    | 'f' :: 'a' :: 'l' :: 's' :: 'e' :: rest => some (.bool false, rest)
    | '"' :: rest =>
      (readString [] true rest).map fun (s, rest) => (s.elim .unreadable .str, rest)
    | '[' :: rest =>
      match skipBlanks rest with
      | ']' :: rest => some (.arr [], rest)
      | rest => readItems n [] rest
    | '{' :: rest =>
      match skipBlanks rest with
      | '}' :: rest => some (.obj [], rest)
      | rest => readMembers n [] true rest
    | _ => readNumber cs

/-- Read one item or more and the closing bracket; `acc` holds the items already
read, the last one first. -/
def readItems : Nat → List Json → List Char → Option (Json × List Char)
  | 0, _, _ => none
  | n + 1, acc, cs =>
    match readValue n cs with
    | none => none
    | some (j, rest) =>
      match skipBlanks rest with
      | ',' :: rest => readItems n (j :: acc) (skipBlanks rest)
      | ']' :: rest => some (.arr (j :: acc).reverse, rest)
      | _ => none

/-- Read one member or more and the closing brace; `acc` holds the members
already read, the last one first.  The object is unreadable if it is not `sound`. -/
def readMembers : Nat → List (String × Json) → Bool → List Char → Option (Json × List Char)
  | 0, _, _, _ => none
  | n + 1, acc, sound, cs =>
    match cs with
    | '"' :: cs =>
      match readString [] true cs with
      | none => none
      | some (k, rest) =>
        match skipBlanks rest with
        | ':' :: rest =>
          match readValue n (skipBlanks rest) with
          | none => none
          | some (j, rest) =>
            let acc := (k.getD "", j) :: acc
            let sound := sound && k.isSome
            match skipBlanks rest with
            | ',' :: rest => readMembers n acc sound (skipBlanks rest)
            | '}' :: rest => some (if sound then .obj acc.reverse else .unreadable, rest)
            | _ => none
        | _ => none
    | _ => none

end

/-- Read a text that holds one value. -/
def parse? (text : String) : Option Json :=
  let cs := skipBlanks text.toList
  match readValue (cs.length + 1) cs with
  | some (j, rest) => if skipBlanks rest = [] then some j else none
  | none => none

end FlowRecovery.Json
