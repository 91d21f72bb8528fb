/-
The characters of YAML texts, and where they stand.

Texts are lists of characters in which the common line breaks have been written as
line feeds; the separators of lines and of paragraphs also end a line, but stay what
they are.  The end of a text counts as a blank.
-/
import FlowRecovery.Text.Digits

namespace FlowRecovery.Yaml

/-- Whether the character may stand in a text. -/
def isAllowed (c : Char) : Bool :=
  let n := c.toNat
  n == 9 || n == 10 || n == 13 || (0x20 ≤ n && n ≤ 0x7e) || n == 0x85 || (0xa0 ≤ n && n ≤ 0xfffd)
    || 0x10000 ≤ n

/-- Write the common line breaks as a line feed. -/
def normalBreaks : List Char → List Char
  | [] => []
  | '\r' :: '\n' :: cs => '\n' :: normalBreaks cs
  | c :: cs => (if c == '\r' || c == '\u0085' then '\n' else c) :: normalBreaks cs

/-- Whether the character is a blank within a line. -/
def isBlank (c : Char) : Bool := c == ' ' || c == '\t'

/-- Whether the character ends a line. -/
def isBreak (c : Char) : Bool := c == '\n' || c == '\u2028' || c == '\u2029'

/-- Whether the character is a blank or ends a line. -/
def isSpacing (c : Char) : Bool := isBlank c || isBreak c

/-- Whether nothing more of a word follows. -/
def endsWord : List Char → Bool
  | [] => true
  | c :: _ => isSpacing c

/-- Whether the text starts with a mark that starts or ends a document. -/
def isMarker (cs : List Char) : Bool :=
  (cs.take 3 == ['-', '-', '-'] || cs.take 3 == ['.', '.', '.']) && endsWord (cs.drop 3)

/-- Whether the character may stand in the name of an anchor or of a directive. -/
def isNameChar (c : Char) : Bool := c.isAlphanum || c == '_' || c == '-'

/-- Whether the character divides or closes a collection in brackets or braces. -/
def isDivider (c : Char) : Bool := [',', '[', ']', '{', '}'].contains c

/-- The text behind a comment, if there is one. -/
def dropComment : List Char → List Char
  | '#' :: cs => cs.dropWhile (!isBreak ·)
  | cs => cs

/-- The text behind the end of a line on which nothing but a comment is left. -/
def lineEnd? (cs : List Char) : Option (List Char) :=
  match dropComment (cs.dropWhile isBlank) with
  | [] => some []
  | c :: cs => if isBreak c then some cs else none

/-- A place in a text, counted from zero. -/
structure Position where
  index : Nat := 0
  line : Nat := 0
  column : Nat := 0
  deriving DecidableEq, Repr, Inhabited

namespace Position

/-- The place behind a character. -/
def after (p : Position) (c : Char) : Position :=
  if isBreak c then { index := p.index + 1, line := p.line + 1, column := 0 }
  else { p with index := p.index + 1, column := p.column + 1 }

/-- The place behind several characters. -/
def afterAll (p : Position) (cs : List Char) : Position := cs.foldl after p

end Position

end FlowRecovery.Yaml
