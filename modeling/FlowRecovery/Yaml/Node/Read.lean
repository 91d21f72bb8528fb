/-
From tokens to nodes.

Anchors are numbered by how many names there are already; a name that is used again
refers to the later number from then on.
-/
import FlowRecovery.Yaml.Node

namespace FlowRecovery.Yaml

/-- The tokens that are left, and what is known about tags and anchors. -/
structure Source where
  tokens : List Token
  /-- What the handles of tags stand for. -/
  handles : List (String × List UInt8) := []
  /-- The numbers of the anchors, the latest first. -/
  anchors : List (String × Nat) := []
  deriving Repr, Inhabited

/-- Reading nodes from tokens. -/
abbrev Read := StateT Source Option

namespace Read

/-- The next token. -/
def peek : Read (Option Token) := do return (← get).tokens.head?

/-- Pass over the next token. -/
def advance : Read Unit := modify fun s => { s with tokens := s.tokens.drop 1 }

/-- Pass over the next token if it is the given one. -/
def take (t : Token) : Read Bool := do
  if (← peek) == some t then
    advance
    return true
  else return false

/-- Whether the next token is one of those given. -/
def isAt (ts : List Token) : Read Bool := do
  match ← peek with
  | some t => return ts.contains t
  | none => return false

/-- Give the next node an anchor. -/
def defineAnchor (name : String) : Read Nat := do
  let s ← get
  let number := s.anchors.length
  set { s with anchors := (name, number) :: s.anchors.filter (·.1 != name) }
  return number

/-- The number of an anchor. -/
def anchorOf (name : String) : Read Nat := do (← get).anchors.lookup name

/-- The full name of a tag. -/
def tagName (t : Tag) : Read (List UInt8) := do
  if t.handle.isEmpty then return t.suffix
  return (← (← get).handles.lookup t.handle) ++ t.suffix

/-- The anchor in front of a node, if there is one. -/
def anchor? : Read (Option Nat) := do
  match ← peek with
  | some (.anchor name) =>
    advance
    return some (← defineAnchor name)
  | _ => return none

/-- The tag in front of a node, if there is one. -/
def tag? : Read (Option (List UInt8)) := do
  match ← peek with
  | some (.tag t) =>
    advance
    return some (← tagName t)
  | _ => return none

/-- What stands in front of a node, in either order. -/
def properties : Read Properties := do
  match ← anchor? with
  | some anchor => return { anchor := some anchor, tag := ← tag? }
  | none =>
    let tag ← tag?
    if tag.isSome then return { anchor := ← anchor?, tag } else return {}

/-- The properties of a scalar; a tag without a name does not count. -/
def ofScalar (p : Properties) : Properties :=
  if p.tag = some Tag.unspecific.suffix then { p with tag := none } else p

mutual

/-- Read a node.  Blocks are not read inside brackets and braces; the items of a sequence
without an indentation of its own only as the value or the key of a mapping. -/
def node (block bare : Bool) : Nat → Read Node
  | 0 => failure
  | fuel + 1 => do
    if let some (.reference name) ← peek then
      advance
      return .reference (← anchorOf name)
    let p ← properties
    match ← peek with
    | some (.scalar text style) =>
      advance
      return .scalar (ofScalar p) text style
    | some .flowSequence =>
      advance
      return .sequence p (← flowItems true fuel)
    | some .flowMapping =>
      advance
      return .mapping p (← flowEntries true fuel)
    | next =>
      if bare ∧ next = some .blockEntry then return .sequence p (← bareItems fuel)
      else if block ∧ next = some .blockSequence then
        advance
        return .sequence p (← blockItems fuel)
      else if block ∧ next = some .blockMapping then
        advance
        return .mapping p (← blockEntries fuel)
      else if p = {} then failure
      else return .scalar p "" .plain

/-- Read a node, or nothing in front of any of the given tokens. -/
def nodeUnless (stops : List Token) (block bare : Bool) : Nat → Read Node
  | 0 => failure
  | fuel + 1 => do if ← isAt stops then return .empty else node block bare fuel

/-- Read the items of a sequence up to the end of its block. -/
def blockItems : Nat → Read (List Node)
  | 0 => failure
  | fuel + 1 => do
    if ← take .blockEnd then return []
    if !(← take .blockEntry) then failure
    let first ← nodeUnless [.blockEntry, .blockEnd] true false fuel
    return first :: (← blockItems fuel)

/-- Read the items of a sequence without an indentation of its own. -/
def bareItems : Nat → Read (List Node)
  | 0 => failure
  | fuel + 1 => do
    if !(← take .blockEntry) then return []
    let first ← nodeUnless [.blockEntry, .key, .value, .blockEnd] true false fuel
    return first :: (← bareItems fuel)

/-- Read the entries of a mapping up to the end of its block. -/
def blockEntries : Nat → Read (List (Node × Node))
  | 0 => failure
  | fuel + 1 => do
    if ← take .blockEnd then return []
    if !(← take .key) then failure
    let stops := [.key, .value, .blockEnd]
    let key ← nodeUnless stops true true fuel
    let value ← if ← take .value then nodeUnless stops true true fuel else pure .empty
    return (key, value) :: (← blockEntries fuel)

/-- Read the items up to the closing bracket; an item may be a single entry.  Where that
has no key, the token that should follow the key is lost. -/
def flowItems (first : Bool) : Nat → Read (List Node)
  | 0 => failure
  | fuel + 1 => do
    if ← take .flowSequenceEnd then return []
    if !first then if !(← take .flowEntry) then failure
    if ← take .flowSequenceEnd then return []
    if ← take .key then
      let key ← if ← isAt [.value, .flowEntry, .flowSequenceEnd] then
          advance
          pure .empty
        else node false false fuel
      let value ← if ← take .value then
          nodeUnless [.flowEntry, .flowSequenceEnd] false false fuel
        else pure .empty
      return .mapping {} [(key, value)] :: (← flowItems false fuel)
    else
      let item ← node false false fuel
      return item :: (← flowItems false fuel)

/-- Read the entries up to the closing brace; a key may stand alone. -/
def flowEntries (first : Bool) : Nat → Read (List (Node × Node))
  | 0 => failure
  | fuel + 1 => do
    if ← take .flowMappingEnd then return []
    if !first then if !(← take .flowEntry) then failure
    if ← take .flowMappingEnd then return []
    if ← take .key then
      let key ← nodeUnless [.value, .flowEntry, .flowMappingEnd] false false fuel
      let value ← if ← take .value then
          nodeUnless [.flowEntry, .flowMappingEnd] false false fuel
        else pure .empty
      return (key, value) :: (← flowEntries false fuel)
    else
      let key ← node false false fuel
      return (key, .empty) :: (← flowEntries false fuel)

end

end Read

end FlowRecovery.Yaml
