/-
Scalars in quotes.

In single quotes only the quote itself is special, and is written twice.  In double
quotes a backslash starts an escape; at the end of a line it joins the lines.
-/
import FlowRecovery.Yaml.Scalar.Gap

namespace FlowRecovery.Yaml.Quoted

/-- What a character behind a backslash stands for. -/
def escape? (c : Char) : Option Char :=
  match c with
  | '0' => some '\x00'
  | 'a' => some '\x07'
  | 'b' => some '\x08'
  | 't' | '\t' => some '\t'
  | 'n' => some '\n'
  | 'v' => some '\x0b'
  | 'f' => some '\x0c'
  | 'r' => some '\r'
  | 'e' => some '\x1b'
  | ' ' => some ' '
  | '"' => some '"'
  | '/' => some '/'
  | '\\' => some '\\'
  | 'N' => some '\u0085'
  | '_' => some '\u00a0'
  | 'L' => some '\u2028'
  | 'P' => some '\u2029'
  | _ => none

/-- How many digits follow a letter that gives a character by its number. -/
def codeLength? (c : Char) : Option Nat :=
  match c with
  | 'x' => some 2
  | 'u' => some 4
  | 'U' => some 8
  | _ => none

/-- The character with a number in hexadecimal. -/
def codeChar? (digits : List Char) : Option Char := do
  let n ← Text.readOn 16 0 digits
  if n.isValidChar then some (Char.ofNat n) else none

/-- The character that an escape stands for, and what follows it. -/
def escaped? (c : Char) (cs : List Char) : Option (Char × List Char) :=
  match codeLength? c with
  | some k =>
    if k ≤ cs.length then (codeChar? (cs.take k)).map fun x => (x, cs.drop k) else none
  | none => (escape? c).map fun x => (x, cs)

/-- A word of a scalar in quotes. -/
structure Word where
  text : List Char
  /-- Whether the word ends with a line break that joins the lines. -/
  joined : Bool := false
  rest : List Char

/-- The word with a character in front. -/
def Word.cons (c : Char) (w : Word) : Word := { w with text := c :: w.text }

/-- A word of a scalar in single quotes. -/
def singleWord : List Char → Word
  | [] => { text := [], rest := [] }
  | '\'' :: '\'' :: cs => (singleWord cs).cons '\''
  | c :: cs =>
    if c == '\'' || isSpacing c then { text := [], rest := c :: cs } else (singleWord cs).cons c

/-- A word of a scalar in double quotes. -/
def doubleWord? : Nat → List Char → Option Word
  | 0, _ => none
  | _, [] => some { text := [], rest := [] }
  | fuel + 1, c :: cs =>
    if c == '"' || isSpacing c then some { text := [], rest := c :: cs }
    else if c == '\\' then
      match cs with
      | [] => none
      | d :: ds =>
        if isBreak d then some { text := [], joined := true, rest := ds }
        else do
          let (x, rest) ← escaped? d ds
          return (← doubleWord? fuel rest).cons x
    else do return (← doubleWord? fuel cs).cons c

/-- Read on up to the closing quote; no mark of a document may stand at the start of a
line. -/
def readOn (single : Bool) : Nat → Bool → List Char → Option (List Char × List Char)
  | 0, _, _ => none
  | fuel + 1, lineStart, cs => do
    if cs.isEmpty || (lineStart && isMarker cs) then none
    let w ← if single then some (singleWord cs) else doubleWord? (fuel + 1) cs
    if w.rest.head? == some (if single then '\'' else '"') then return (w.text, w.rest.drop 1)
    let gap := Gap.of w.rest
    let between := if w.joined then Gap.breaks gap else Gap.folded gap
    let lineStart := (gap.getLast?.map isBreak).getD w.joined
    let (text, rest) ← readOn single fuel lineStart (Gap.drop w.rest)
    return (w.text ++ between ++ text, rest)

/-- Read a scalar in quotes, behind the opening one. -/
def read? (single : Bool) (cs : List Char) : Option (List Char × List Char) :=
  readOn single (cs.length + 1) false cs

end FlowRecovery.Yaml.Quoted
