/-
YAML documents.

A text holds one document, or nothing at all.  Directives may stand in front of a
document that is marked as started; they are at most one for the version, and one for
each handle of a tag.
-/
import FlowRecovery.Yaml.Node.Read
import FlowRecovery.Yaml.Token.Scan

namespace FlowRecovery.Yaml

/-- A document; nothing at all has no root. -/
structure Document where
  root : Option Node
  deriving Repr, Inhabited

/-- What has been said about versions and tags. -/
structure Prologue where
  versioned : Bool := false
  handles : List (String × List UInt8) := []
  deriving Repr, Inhabited

namespace Prologue

/-- Take over a directive; the version is 1.1 or 1.2. -/
def add? (p : Prologue) : Directive → Option Prologue
  | .version major minor =>
    if !p.versioned && major == 1 && (minor == 1 || minor == 2) then
      some { p with versioned := true }
    else none
  | .tag handle start =>
    match p.handles.lookup handle with
    | some _ => none
    | none => some { p with handles := p.handles ++ [(handle, start)] }

/-- Take over the directives that tokens start with. -/
def read? (p : Prologue) : List Token → Option (Prologue × List Token)
  | .directive d :: ts => (p.add? d).bind (·.read? ts)
  | ts => some (p, ts)

/-- What the handles stand for; two always stand for something. -/
def allHandles (p : Prologue) : List (String × List UInt8) :=
  p.handles ++ [("!", [Tag.byte '!']), ("!!", commonTag "")]

end Prologue

namespace Document

/-- Read the root of a document. -/
def readRoot? (p : Prologue) (ts : List Token) : Option (Node × List Token) := do
  let source : Source := { tokens := ts, handles := p.allHandles }
  let (root, source) ← (Read.node true false (3 * ts.length + 3)).run source
  return (root, source.tokens)

/-- Whether nothing but ends of documents is left. -/
def isOver (ts : List Token) : Bool := ts.all (· == .documentEnd)

/-- Read the one document of tokens. -/
def ofTokens? (ts : List Token) : Option Document := do
  if ts.isEmpty then return { root := none }
  let (p, rest) ← Prologue.read? {} ts
  let (root, rest) ← match rest with
    | .documentStart :: rest =>
      match rest with
      | [] | .directive _ :: _ | .documentStart :: _ | .documentEnd :: _ => some (.empty, rest)
      | _ => readRoot? p rest
    | _ => if rest.length = ts.length then readRoot? p rest else none
  if isOver rest then return { root := some root } else none

/-- Read the one document of a text. -/
def parse? (text : String) : Option Document := (Token.scan? text).bind ofTokens?

/-- The node that a reference stands for: the last that has the anchor. -/
def target? (d : Document) (anchor : Nat) : Option Node :=
  match d.root with
  | none => none
  | some root => (root.anchored.filter (·.1 == anchor)).getLast?.map (·.2)

/-- A node, or the one that it stands for. -/
def follow? (d : Document) : Node → Option Node
  | .reference anchor => d.target? anchor
  | n => some n

end Document

end FlowRecovery.Yaml
