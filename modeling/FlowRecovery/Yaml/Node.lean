/-
The nodes of a YAML document.

A scalar is kept as its text and how it was written; what it stands for depends on who
asks.  A node may have a tag and the number of an anchor; a reference has the number of
the anchor of another node, which it stands for.
-/
import FlowRecovery.Binary
import FlowRecovery.Yaml.Token

namespace FlowRecovery.Yaml

/-- What may stand in front of a node. -/
structure Properties where
  anchor : Option Nat := none
  /-- The full name of the tag. -/
  tag : Option (List UInt8) := none
  deriving DecidableEq, Repr, Inhabited

/-- A node of a document. -/
inductive Node where
  | reference (anchor : Nat)
  | scalar (properties : Properties) (text : String) (style : Style)
  | sequence (properties : Properties) (items : List Node)
  | mapping (properties : Properties) (entries : List (Node × Node))
  deriving Repr, Inhabited

/-- The full name of a tag for common types. -/
def commonTag (name : String) : List UInt8 := ("tag:yaml.org,2002:" ++ name).toUTF8.toList

/-- Whether a plain text stands for null. -/
def isNullText (s : String) : Bool := s == "~" || s == "null" || s == "Null" || s == "NULL"

/-- The name of a tag that belongs to the application: what stands behind its exclamation
mark, or that mark alone. -/
def localName? (tag : List UInt8) : Option String :=
  match tag with
  | 0x21 :: [] => some "!"
  | 0x21 :: rest => Binary.text? rest
  | _ => none

namespace Node

/-- The node that is written as nothing. -/
def empty : Node := .scalar {} "" .plain

/-- The text of a scalar. -/
def text? : Node → Option String
  | .scalar _ s _ => some s
  | _ => none

/-- The text of a scalar that may stand for something else: it is plain, or a literal that
has the tag of the type. -/
def value? (type : String) : Node → Option String
  | .scalar _ s .plain => some s
  | .scalar p s .literal => if p.tag = some (commonTag type) then some s else none
  | _ => none

/-- The truth value that a scalar stands for. -/
def bool? (n : Node) : Option Bool :=
  match n.value? "bool" with
  | some "true" | some "True" | some "TRUE" => some true
  | some "false" | some "False" | some "FALSE" => some false
  | _ => none

/-- Read digits that are not signed again. -/
def unsigned? (base : Nat) : List Char → Option Word
  | '+' :: _ => none
  | cs => Text.readWord? base cs

/-- The number that a text stands for: an optional plus sign, and digits in the
base that `0x`, `0o` or `0b` says; decimal digits may not start with a zero. -/
def number? (cs : List Char) : Option Word :=
  match Text.dropPlus cs with
  | '0' :: 'x' :: ds => unsigned? 16 ds
  | '0' :: 'o' :: ds => unsigned? 8 ds
  | '0' :: 'b' :: ds => unsigned? 2 ds
  | '0' :: _ :: _ => none
  | ds => unsigned? 10 ds

/-- The number that a scalar stands for. -/
def word? (n : Node) : Option Word := (n.value? "int").bind fun s => number? s.toList

/-- What a node stands for that may be null.  A plain scalar with another tag than that of
null is not null, and one with that tag has to be. -/
def optional? {α : Type} (read : Node → Option α) (n : Node) : Option (Option α) :=
  match n with
  | .scalar { tag := none, .. } s .plain =>
    if s.isEmpty || isNullText s then some none else (read n).map some
  | .scalar { tag := some tag, .. } s .plain =>
    if tag = commonTag "null" then if isNullText s then some none else none
    else (read n).map some
  | _ => (read n).map some

/-- The name that a node stands for where names are told apart: that of its own tag, with
nothing behind it, or else its text. -/
def name? : Node → Option String
  | .scalar p s style =>
    match p.tag.bind localName? with
    | some name => if style = .plain ∧ (s.isEmpty ∨ isNullText s) then some name else none
    | none => some s
  | _ => none

mutual

/-- The nodes with anchors in the order in which they start. -/
def anchored : Node → List (Nat × Node)
  | .reference _ => []
  | .scalar p s style => (p.anchor.map fun a => (a, Node.scalar p s style)).toList
  | .sequence p items =>
    (p.anchor.map fun a => (a, Node.sequence p items)).toList ++ anchoredItems items
  | .mapping p entries =>
    (p.anchor.map fun a => (a, Node.mapping p entries)).toList ++ anchoredEntries entries

/-- The nodes with anchors in items. -/
def anchoredItems : List Node → List (Nat × Node)
  | [] => []
  | n :: ns => n.anchored ++ anchoredItems ns

/-- The nodes with anchors in entries. -/
def anchoredEntries : List (Node × Node) → List (Nat × Node)
  | [] => []
  | (k, v) :: entries => k.anchored ++ v.anchored ++ anchoredEntries entries

end

end Node

end FlowRecovery.Yaml
