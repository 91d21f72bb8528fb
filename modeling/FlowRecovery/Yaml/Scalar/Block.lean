/-
Block scalars.

The lines of a block scalar stand below its header at one indentation, which the
header gives or the first line that is not empty shows.  In a folded scalar single
breaks become blanks, except around lines that are indented further.
-/
import FlowRecovery.Yaml.Character

namespace FlowRecovery.Yaml.Block

/-- What becomes of the line breaks at the end of a block scalar. -/
inductive Chomp where
  | strip
  | clip
  | keep
  deriving DecidableEq, Repr, Inhabited

/-- The header of a block scalar. -/
structure Header where
  chomp : Chomp := .clip
  /-- By how much the lines are indented, if it is given. -/
  increment : Option Nat := none
  deriving DecidableEq, Repr, Inhabited

/-- The chomping that a character asks for. -/
def chomp? (c : Char) : Option Chomp :=
  if c == '+' then some .keep else if c == '-' then some .strip else none

/-- The chomping at the start of a text, if it is given there. -/
def chompOf : List Char → Chomp × List Char
  | [] => (.clip, [])
  | c :: cs =>
    match chomp? c with
    | some chomp => (chomp, cs)
    | none => (.clip, c :: cs)

/-- The indentation at the start of a text, if it is given there; it is not zero. -/
def incrementOf? : List Char → Option (Option Nat × List Char)
  | [] => some (none, [])
  | c :: cs =>
    match Text.digitValue? 10 c with
    | some 0 => none
    | some n => some (some n, cs)
    | none => some (none, c :: cs)

/-- Read the header behind its first character, up to the end of its line.  Chomping and
indentation may be given in either order. -/
def Header.read? (cs : List Char) : Option (Header × List Char) := do
  let (header, rest) ← match cs.head?.bind chomp? with
    | some chomp =>
      let (increment, rest) ← incrementOf? (cs.drop 1)
      pure ({ chomp, increment }, rest)
    | none =>
      let (increment, rest) ← incrementOf? cs
      if increment.isNone then pure ({}, rest)
      else
        let (chomp, rest) := chompOf rest
        pure ({ chomp, increment }, rest)
  return (header, ← lineEnd? rest)

/-- What stands in front of a line that is not empty. -/
structure LeadIn where
  breaks : List Char
  /-- How far the line is indented, as far as that counts. -/
  column : Nat
  /-- How far any of the lines is indented. -/
  deepest : Nat
  rest : List Char

/-- Read empty lines, and the indentation of the line behind them: up to a column, or all
of it if that is zero.  No tab may stand in the indentation. -/
def leadIn? (indent : Nat) : Nat → Nat → List Char → Option LeadIn
  | column, deepest, [] => some { breaks := [], column, deepest := max deepest column, rest := [] }
  | column, deepest, c :: cs =>
    let indenting := indent == 0 || column < indent
    if indenting && c == ' ' then leadIn? indent (column + 1) deepest cs
    else if indenting && c == '\t' then none
    else if isBreak c then
      (leadIn? indent 0 (max deepest column) cs).map fun l => { l with breaks := c :: l.breaks }
    else some { breaks := [], column, deepest := max deepest column, rest := c :: cs }

/-- What has been read of a block scalar: its text up to the end of the last line, the
break of that line, and the breaks behind it. -/
structure Reading where
  text : List Char
  last : List Char
  trailing : List Char
  rest : List Char

/-- Read the lines at an indentation.  Behind a line there are its break, which `deep`
says whether to keep, and further breaks. -/
def lines? (folded : Bool) (indent : Nat) : Nat → List Char → Bool → LeadIn → Option Reading
  | 0, _, _, _ => none
  | fuel + 1, last, deep, l => do
    let c :: _ := l.rest | return { text := [], last, trailing := l.breaks, rest := [] }
    if l.column ≠ indent then return { text := [], last, trailing := l.breaks, rest := l.rest }
    let joint :=
      if folded && last == ['\n'] && !deep && !isBlank c then
        if l.breaks.isEmpty then [' '] else []
      else last
    let after := l.rest.dropWhile (!isBreak ·)
    let next ← leadIn? indent 0 0 (after.drop 1)
    let more ← lines? folded indent fuel (after.take 1) (isBlank c) next
    return { more with
             text := joint ++ l.breaks ++ l.rest.takeWhile (!isBreak ·) ++ more.text }

/-- Read a block scalar behind its first character, where lines have to be indented by at
least so much. -/
def read? (folded : Bool) (level : Nat) (cs : List Char) : Option (List Char × List Char) := do
  let (header, body) ← Header.read? cs
  let given := match header.increment with
    | some n => level - 1 + n
    | none => 0
  let first ← leadIn? given 0 0 body
  let indent := if given = 0 then max first.deepest (max level 1) else given
  let r ← lines? folded indent (body.length + 1) [] false first
  let tail := match header.chomp with
    | .strip => []
    | .clip => r.last
    | .keep => r.last ++ r.trailing
  return (r.text ++ tail, r.rest)

end FlowRecovery.Yaml.Block
