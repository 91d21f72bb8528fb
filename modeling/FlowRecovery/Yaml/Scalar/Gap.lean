/-
The gaps between the words of a scalar.

Blanks within a line are kept.  Around a line break blanks do not count: a single
break becomes a blank, and of several breaks the first is lost.  Only a break that is
not a line feed is never lost.
-/
import FlowRecovery.Yaml.Character

namespace FlowRecovery.Yaml.Gap

/-- The blanks and line breaks that a text starts with. -/
def of (cs : List Char) : List Char := cs.takeWhile isSpacing

/-- The text behind the blanks and line breaks that it starts with. -/
def drop (cs : List Char) : List Char := cs.dropWhile isSpacing

/-- The line breaks of a gap. -/
def breaks (gap : List Char) : List Char := gap.filter isBreak

/-- Whether a gap has a line break. -/
def isBroken (gap : List Char) : Bool := gap.any isBreak

/-- What a gap leaves of itself in the scalar. -/
def folded (gap : List Char) : List Char :=
  match breaks gap with
  | [] => gap
  | ['\n'] => [' ']
  | '\n' :: others => others
  | others => others

/-- How far the text behind a gap with a line break is indented. -/
def indentation (gap : List Char) : Nat := (gap.reverse.takeWhile (!isBreak ·)).length

/-- Whether a line behind a break has a tab before a column. -/
def tabBefore (column : Nat) : List Char → Bool
  | [] => false
  | c :: cs =>
    (isBreak c && (cs.takeWhile (· == ' ')).length < column &&
      (cs.dropWhile (· == ' ')).head? == some '\t') || tabBefore column cs

end FlowRecovery.Yaml.Gap
