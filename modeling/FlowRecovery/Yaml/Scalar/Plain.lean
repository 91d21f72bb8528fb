/-
Plain scalars.

A plain scalar has no marks around it, so it ends where something else starts: a
comment, a colon with a blank behind it, a mark of a document, or a line that is not
indented far enough.  Inside brackets and braces it also ends at what divides them.
-/
import FlowRecovery.Yaml.Scalar.Gap

namespace FlowRecovery.Yaml.Plain

/-- The characters that start something else than a plain scalar. -/
def indicators : List Char :=
  ['-', '?', ':', ',', '[', ']', '{', '}', '#', '&', '*', '!', '|', '>', '\'', '"', '%', '@',
    '\x60']

/-- Whether a plain scalar starts with the character and what follows it. -/
def starts (flow : Bool) (c : Char) (cs : List Char) : Bool :=
  if isSpacing c then false
  else if c == '-' then !(cs.head?.any isBlank)
  else if c == '?' || c == ':' then !flow && !endsWord cs
  else !indicators.contains c

/-- A word of a plain scalar, and what follows it.  Inside a collection no colon may stand
in front of what divides it. -/
def word? (flow : Bool) : List Char → Option (List Char × List Char)
  | [] => some ([], [])
  | c :: cs =>
    if isSpacing c then some ([], c :: cs)
    else if c == ':' && flow && cs.head?.any (fun d => isDivider d || d == '?') then none
    else if (c == ':' && endsWord cs) || (flow && isDivider c) then some ([], c :: cs)
    else (word? flow cs).map fun p => (c :: p.1, p.2)

/-- What has been read of a plain scalar. -/
structure Reading where
  text : List Char
  rest : List Char
  /-- Whether there is a line break between the scalar and the rest. -/
  broken : Bool

/-- Read on behind a gap.  The lines have to be indented by at least so much. -/
def readOn (flow : Bool) (indent : Nat) : Nat → List Char → List Char → Option Reading
  | 0, _, _ => none
  | fuel + 1, gap, cs => do
    let broken := Gap.isBroken gap
    let marked := broken && Gap.indentation gap == 0 && isMarker cs
    if marked || cs.head? == some '#' then return { text := [], rest := cs, broken }
    let (word, rest) ← word? flow cs
    if word.isEmpty then return { text := [], rest, broken }
    let text := Gap.folded gap ++ word
    let next := Gap.of rest
    if next.isEmpty then return { text, rest, broken := false }
    if Gap.tabBefore indent next then none
    let after := Gap.drop rest
    if !flow && Gap.isBroken next && Gap.indentation next < indent then
      return { text, rest := after, broken := true }
    let more ← readOn flow indent fuel next after
    return { more with text := text ++ more.text }

/-- Read a plain scalar. -/
def read? (flow : Bool) (indent : Nat) (cs : List Char) : Option Reading :=
  readOn flow indent (cs.length + 1) [] cs

end FlowRecovery.Yaml.Plain
