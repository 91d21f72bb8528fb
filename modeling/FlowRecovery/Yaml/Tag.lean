/-
Tags, anchors and directives.

A tag is a handle and what follows it; the handle stands for the start of the tag's
full name, which a directive may give.  Names are made of bytes, as any byte may be
written by its number; a zero byte ends a name.
-/
import FlowRecovery.Yaml.Character

namespace FlowRecovery.Yaml

/-- The name of an anchor, and what follows it. -/
def anchorName? (cs : List Char) : Option (String × List Char) :=
  let name := cs.takeWhile isNameChar
  let rest := cs.dropWhile isNameChar
  let closed := endsWord rest ||
    rest.head?.any ['?', ':', ',', ']', '}', '%', '@', '\x60'].contains
  if name.isEmpty || !closed then none else some (String.ofList name, rest)

/-- A tag as it is written; without a handle the rest is all of its name. -/
structure Tag where
  handle : String
  suffix : List UInt8
  deriving DecidableEq, Repr, Inhabited

namespace Tag

/-- The byte of an ASCII character. -/
def byte (c : Char) : UInt8 := .ofNat c.toNat

/-- Whether the character may stand in a tag.  Three more may if the name of the tag is
given in full. -/
def isTagChar (full : Bool) (c : Char) : Bool :=
  isNameChar c || ";/?:@&=+$.%!~*'()".toList.contains c || (full && [',', '[', ']'].contains c)

/-- The byte that two hexadecimal digits behind a percent sign give. -/
def octet? : List Char → Option (Nat × List Char)
  | '%' :: a :: b :: cs => (Text.readDigits? 16 [a, b]).map (·, cs)
  | _ => none

/-- How many bytes follow the first one of a character. -/
def followers? (first : Nat) : Option Nat :=
  if first < 0x80 then some 0
  else if first / 0x20 = 0x6 then some 1
  else if first / 0x10 = 0xe then some 2
  else if first / 0x8 = 0x1e then some 3
  else none

/-- Bytes that do not start a character, so many of them. -/
def following? : Nat → List Char → Option (List UInt8 × List Char)
  | 0, cs => some ([], cs)
  | count + 1, cs => do
    let (n, rest) ← octet? cs
    if n / 0x40 ≠ 2 then none
    let (bytes, rest) ← following? count rest
    return (.ofNat n :: bytes, rest)

/-- A character of a tag, which may be given by its bytes. -/
def readChar? (cs : List Char) : Option (List UInt8 × List Char) :=
  match cs with
  | [] => none
  | '%' :: _ => do
    let (n, rest) ← octet? cs
    let (bytes, rest) ← following? (← followers? n) rest
    return (.ofNat n :: bytes, rest)
  | c :: cs => some ([byte c], cs)

/-- Characters of a tag. -/
def readChars? (full : Bool) : Nat → List Char → Option (List UInt8 × List Char)
  | 0, _ => none
  | fuel + 1, cs =>
    if cs.head?.any (isTagChar full) then do
      let (first, rest) ← readChar? cs
      let (bytes, rest) ← readChars? full fuel rest
      return (first ++ bytes, rest)
    else some ([], cs)

/-- A part of a tag up to a zero byte, and what follows the part; it may be empty only if
something stands in front of it. -/
def part? (full : Bool) (front : List Char) (cs : List Char) : Option (List UInt8 × List Char) := do
  let (bytes, rest) ← readChars? full (cs.length + 1) cs
  if front.isEmpty && bytes.isEmpty then none
  return (((front.drop 1).map byte ++ bytes).takeWhile (· ≠ 0), rest)

/-- The tag without a handle and without a name. -/
def unspecific : Tag := { handle := "", suffix := [byte '!'] }

/-- Read a tag behind its exclamation mark. -/
def read? (flow : Bool) (cs : List Char) : Option (Tag × List Char) := do
  let name := cs.takeWhile isNameChar
  let (tag, rest) ← match cs, cs.dropWhile isNameChar with
    | '<' :: cs, _ => do
      let (suffix, rest) ← part? true [] cs
      if rest.head? == some '>' then pure ({ handle := "", suffix : Tag }, rest.drop 1) else none
    | _, '!' :: rest => do
      let (suffix, rest) ← part? false [] rest
      pure ({ handle := String.ofList ('!' :: name ++ ['!']), suffix : Tag }, rest)
    | _, rest => do
      let (suffix, rest) ← part? false ('!' :: name) rest
      pure (if suffix.isEmpty then unspecific else { handle := "!", suffix }, rest)
  if endsWord rest || (flow && rest.head? == some ',') then return (tag, rest) else none

end Tag

/-- What a directive says. -/
inductive Directive where
  | version (major minor : Nat)
  | tag (handle : String) (start : List UInt8)
  deriving DecidableEq, Repr, Inhabited

namespace Directive

/-- A number of at most nine digits, and what follows it. -/
def number? (cs : List Char) : Option (Nat × List Char) := do
  let digits := cs.takeWhile Char.isDigit
  if 9 < digits.length then none
  return (← Text.readDigits? 10 digits, cs.dropWhile Char.isDigit)

/-- The version that a directive gives. -/
def readVersion? (cs : List Char) : Option (Directive × List Char) := do
  let (major, rest) ← number? cs
  let '.' :: rest := rest | none
  let (minor, rest) ← number? rest
  return (.version major minor, rest)

/-- The handle that a directive gives, and what it stands for. -/
def readTag? (cs : List Char) : Option (Directive × List Char) := do
  let '!' :: cs := cs | none
  let name := cs.takeWhile isNameChar
  let (handle, rest) ← match cs.dropWhile isNameChar with
    | '!' :: rest => some ('!' :: name ++ ['!'], rest)
    | rest => if name.isEmpty then some (['!'], rest) else none
  if !(rest.head?.any isBlank) then none
  let (start, rest) ← Tag.part? true [] (rest.dropWhile isBlank)
  if !endsWord rest then none
  return (.tag (String.ofList handle) start, rest)

/-- Read a directive behind its percent sign, up to the end of its line. -/
def read? (cs : List Char) : Option (Directive × List Char) := do
  let name := cs.takeWhile isNameChar
  let rest := cs.dropWhile isNameChar
  if !endsWord rest then none
  let value := rest.dropWhile isBlank
  let (directive, rest) ←
    if name = ['Y', 'A', 'M', 'L'] then readVersion? value
    else if name = ['T', 'A', 'G'] then readTag? value
    else none
  return (directive, ← lineEnd? rest)

end Directive

end FlowRecovery.Yaml
