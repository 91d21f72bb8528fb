/-
From a text to its tokens.

A key of a mapping mostly shows only when the colon behind it is reached.  So
whatever may be such a key is remembered, one for each collection around, and its
tokens are put in when the colon comes.  A key like that is on one line and not
longer than 1024 characters.  At the indentation of a block there has to be one.
-/
import FlowRecovery.Yaml.Scalar.Block
import FlowRecovery.Yaml.Scalar.Plain
import FlowRecovery.Yaml.Scalar.Quoted
import FlowRecovery.Yaml.Token

namespace FlowRecovery.Yaml

/-- Something that is a key if a colon follows. -/
structure PendingKey where
  place : Position
  /-- How many tokens there are in front of it. -/
  number : Nat
  /-- Whether nothing but a key can stand here. -/
  required : Bool
  deriving DecidableEq, Repr, Inhabited

/-- Whether the colon can no longer follow at a place. -/
def PendingKey.isStale (k : PendingKey) (place : Position) : Bool :=
  k.place.line < place.line || k.place.index + 1024 < place.index

/-- How far a text has been taken apart. -/
structure Scan where
  rest : List Char
  place : Position := {}
  /-- The tokens so far, the last first. -/
  tokens : List Token := []
  count : Nat := 0
  /-- The least column for what belongs to the innermost block; zero outside of blocks. -/
  level : Nat := 0
  outerLevels : List Nat := []
  key : Option PendingKey := none
  /-- The pending keys outside of the brackets and braces that are open. -/
  outerKeys : List (Option PendingKey) := []
  /-- Whether a key may start here. -/
  keyAllowed : Bool := true
  deriving Repr, Inhabited

namespace Scan

/-- Whether any brackets or braces are open. -/
def inFlow (s : Scan) : Bool := !s.outerKeys.isEmpty

/-- Pass over a character. -/
def next (s : Scan) : Scan :=
  match s.rest with
  | [] => s
  | c :: cs => { s with rest := cs, place := s.place.after c }

/-- Go on to where the given text is left. -/
def moveTo (s : Scan) (rest : List Char) : Scan :=
  { s with rest, place := s.place.afterAll (s.rest.take (s.rest.length - rest.length)) }

/-- Add a token. -/
def push (s : Scan) (t : Token) : Scan := { s with tokens := t :: s.tokens, count := s.count + 1 }

/-- Put in a token behind so many others. -/
def insert (s : Scan) (number : Nat) (t : Token) : Scan :=
  let behind := s.count - number
  { s with tokens := s.tokens.take behind ++ t :: s.tokens.drop behind, count := s.count + 1 }

/-- Give up the pending key, unless it has to be one. -/
def dropKey (s : Scan) : Option Scan :=
  if s.key.any (·.required) then none else some { s with key := none }

/-- Remember that a key may start here. -/
def saveKey (s : Scan) : Option Scan := do
  if s.keyAllowed then
    let required := !s.inFlow && s.level == s.place.column + 1
    return { ← s.dropKey with key := some { place := s.place, number := s.count, required } }
  else return s

/-- Give up the keys that have become too long. -/
def dropStaleKeys (s : Scan) : Option Scan :=
  let isStale (k : Option PendingKey) : Bool := k.any (·.isStale s.place)
  let keep (k : Option PendingKey) : Option PendingKey := if isStale k then none else k
  if (s.key :: s.outerKeys).any fun k => isStale k && k.any (·.required) then none
  else some { s with key := keep s.key, outerKeys := s.outerKeys.map keep }

/-- Open a block at a column behind so many tokens, unless one is open there. -/
def openBlock (s : Scan) (column number : Nat) (t : Token) : Scan :=
  if s.inFlow || column < s.level then s
  else { s.insert number t with level := column + 1, outerLevels := s.level :: s.outerLevels }

/-- Close the innermost blocks while their level is above the given one. -/
def closeFrom (limit : Nat) (s : Scan) : List Nat → Scan
  | [] => s
  | outer :: levels =>
    if limit < s.level then
      closeFrom limit { s.push .blockEnd with level := outer, outerLevels := levels } levels
    else s

/-- Close the blocks whose level is above the given one. -/
def closeBlocks (s : Scan) (limit : Nat) : Scan :=
  if s.inFlow then s else closeFrom limit s s.outerLevels

/-- Pass over blanks, line breaks and comments.  A tab is no blank where a key may start,
and behind a line break one may.  A mark of the byte order may start a line. -/
def skipVoid (flow : Bool) : Bool → Position → Bool → List Char → List Char × Position × Bool
  | _, place, keyAllowed, [] => ([], place, keyAllowed)
  | comment, place, keyAllowed, c :: cs =>
    if isBreak c then skipVoid flow false (place.after c) (keyAllowed || !flow) cs
    else if comment || c == '#' then skipVoid flow true (place.after c) keyAllowed cs
    else if c == ' ' || (c == '\t' && (flow || !keyAllowed)) || (c == '\ufeff' && place.column == 0)
    then skipVoid flow false (place.after c) keyAllowed cs
    else (c :: cs, place, keyAllowed)

/-- Go on to the next token, and close the blocks that it does not belong to. -/
def toToken (s : Scan) : Option Scan := do
  let (rest, place, keyAllowed) := skipVoid s.inFlow false s.place s.keyAllowed s.rest
  let s ← ({ s with rest, place, keyAllowed }).dropStaleKeys
  return s.closeBlocks (s.place.column + 1)

/-- A token that closes all blocks, and the text behind it. -/
def outermost (s : Scan) (t : Token) (rest : List Char) : Option Scan := do
  let s ← (s.closeBlocks 0).dropKey
  return { (s.push t).moveTo rest with keyAllowed := false }

/-- An opening bracket or brace. -/
def openFlow (s : Scan) (t : Token) : Option Scan := do
  let s ← s.saveKey
  return { (s.push t).next with
           key := none, outerKeys := s.key :: s.outerKeys, keyAllowed := true }

/-- A closing bracket or brace. -/
def closeFlow (s : Scan) (t : Token) : Option Scan := do
  let s ← s.dropKey
  let s := { (s.push t).next with keyAllowed := false }
  return match s.outerKeys with
    | [] => s
    | key :: outerKeys => { s with key, outerKeys }

/-- A comma. -/
def flowEntry (s : Scan) : Option Scan := do
  return { ((← s.dropKey).push .flowEntry).next with keyAllowed := true }

/-- A dash in front of an item. -/
def blockEntry (s : Scan) : Option Scan := do
  if !s.inFlow && !s.keyAllowed then none
  let s ← (s.openBlock s.place.column s.count .blockSequence).dropKey
  return { (s.push .blockEntry).next with keyAllowed := true }

/-- A question mark in front of a key. -/
def explicitKey (s : Scan) : Option Scan := do
  if !s.inFlow && !s.keyAllowed then none
  let s ← (s.openBlock s.place.column s.count .blockMapping).dropKey
  return { (s.push .key).next with keyAllowed := !s.inFlow }

/-- A colon in front of a value; what is pending becomes the key. -/
def value (s : Scan) : Option Scan := do
  match s.key with
  | some k =>
    let s := (s.insert k.number .key).openBlock k.place.column k.number .blockMapping
    return { (s.push .value).next with key := none, keyAllowed := false }
  | none =>
    if !s.inFlow && !s.keyAllowed then none
    let s := s.openBlock s.place.column s.count .blockMapping
    return { (s.push .value).next with keyAllowed := !s.inFlow }

/-- A token that a key may start with. -/
def content (s : Scan) (t : Token) (rest : List Char) : Option Scan := do
  return { ((← s.saveKey).push t).moveTo rest with keyAllowed := false }

/-- A block scalar. -/
def blockScalar (s : Scan) (folded : Bool) (cs : List Char) : Option Scan := do
  let (text, rest) ← Block.read? folded s.level cs
  let t := .scalar (String.ofList text) (if folded then .folded else .literal)
  return { ((← s.dropKey).push t).moveTo rest with keyAllowed := true }

/-- A scalar in quotes. -/
def quotedScalar (s : Scan) (single : Bool) (cs : List Char) : Option Scan := do
  let (text, rest) ← Quoted.read? single cs
  s.content (.scalar (String.ofList text) .quoted) rest

/-- A plain scalar; behind a line break a key may start. -/
def plainScalar (s : Scan) : Option Scan := do
  let r ← Plain.read? s.inFlow s.level s.rest
  let s ← s.content (.scalar (String.ofList r.text) .plain) r.rest
  return { s with keyAllowed := r.broken }

/-- The token that starts with a character. -/
def token (s : Scan) (c : Char) (cs : List Char) : Option Scan :=
  let lineStart := s.place.column == 0
  let flow := s.inFlow
  if lineStart && c == '%' then do
    let (directive, rest) ← Directive.read? cs
    s.outermost (.directive directive) rest
  else if lineStart && isMarker s.rest then
    s.outermost (if c == '-' then .documentStart else .documentEnd) (cs.drop 2)
  else
    match c with
    | '[' => s.openFlow .flowSequence
    | '{' => s.openFlow .flowMapping
    | ']' => s.closeFlow .flowSequenceEnd
    | '}' => s.closeFlow .flowMappingEnd
    | ',' => s.flowEntry
    | '*' => do
      let (name, rest) ← anchorName? cs
      s.content (.reference name) rest
    | '&' => do
      let (name, rest) ← anchorName? cs
      s.content (.anchor name) rest
    | '!' => do
      let (tag, rest) ← Tag.read? flow cs
      s.content (.tag tag) rest
    | '\'' => s.quotedScalar true cs
    | '"' => s.quotedScalar false cs
    | _ =>
      if c == '-' && endsWord cs then s.blockEntry
      else if c == '?' && (flow || endsWord cs) then s.explicitKey
      else if c == ':' && (flow || endsWord cs) then s.value
      else if c == '|' && !flow then s.blockScalar false cs
      else if c == '>' && !flow then s.blockScalar true cs
      else if Plain.starts flow c cs then s.plainScalar
      else none

/-- The tokens up to the end of the text. -/
def run : Nat → Scan → Option (List Token)
  | 0, _ => none
  | fuel + 1, s => do
    let s ← s.toToken
    match s.rest with
    | [] => return (← (s.closeBlocks 0).dropKey).tokens.reverse
    | c :: cs => run fuel (← s.token c cs)

end Scan

/-- The tokens of a text. -/
def Token.scan? (text : String) : Option (List Token) :=
  let cs := text.toList
  if cs.all isAllowed then Scan.run (cs.length + 1) { rest := normalBreaks cs } else none

end FlowRecovery.Yaml
