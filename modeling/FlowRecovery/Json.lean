/-
JSON values and their two written forms.

An object keeps its members in the order they were written, and keeps repeated
names, so that a reader of records can refuse them.  A number without fraction
and exponent is kept as sign and magnitude; any other number keeps its text.  What
has the form of a value but cannot be one is kept as unreadable, so that it may
stand where nobody reads it.

* `Json.compact` writes a value on one line without blanks;
* `Json.pretty` writes one member or item per line, indented by two blanks.

Both are built from functions that put text in front of a given rest, the form
in which a reader meets them.
-/
import FlowRecovery.AddrSet
import FlowRecovery.Text.Digits

namespace FlowRecovery

/-- A JSON value. -/
inductive Json where
  | null
  | bool (value : Bool)
  | int (negative : Bool) (magnitude : Nat)
  | fraction (text : String)
  | str (value : String)
  | arr (items : List Json)
  | obj (members : List (String × Json))
  /-- A string with half of a pair of escapes, a number out of range, or an object with such
  a name. -/
  | unreadable
  deriving Repr, Inhabited

namespace Json

/-- The natural number as a JSON value. -/
def nat (n : Nat) : Json := .int false n

/-- The word as a JSON value. -/
def word (w : Word) : Json := .int false w.toNat

/-- The value of an option, or null. -/
def opt {α : Type} (f : α → Json) : Option α → Json
  | none => .null
  | some a => f a

/-- The list as an array. -/
def list {α : Type} (f : α → Json) (l : List α) : Json := .arr (l.map f)

/-- The address set as an array in increasing order. -/
def addrs (s : AddrSet) : Json := list word s.toList

/-- Write one character of a string: quotes, backslashes and control characters
are escaped, everything else stands for itself. -/
def escapeChar (c : Char) : List Char :=
  if c = '"' then ['\\', '"']
  else if c = '\\' then ['\\', '\\']
  else if c = '\n' then ['\\', 'n']
  else if c = '\t' then ['\\', 't']
  else if c = '\r' then ['\\', 'r']
  else if c = '\x08' then ['\\', 'b']
  else if c = '\x0c' then ['\\', 'f']
  else if c.toNat < 0x20 then
    ['\\', 'u', '0', '0', Nat.digitChar (c.toNat / 16), Nat.digitChar (c.toNat % 16)]
  else [c]

/-- Write the characters of a string and the closing quote in front of `rest`. -/
def stringTail (rest : List Char) : List Char → List Char
  | [] => '"' :: rest
  | c :: cs => escapeChar c ++ stringTail rest cs

/-- Write a quoted string in front of `rest`. -/
def stringChars (s : String) (rest : List Char) : List Char := '"' :: stringTail rest s.toList

/-- Write an integer in front of `rest`. -/
def intChars (negative : Bool) (magnitude : Nat) (rest : List Char) : List Char :=
  if negative then '-' :: (Nat.toDigits 10 magnitude ++ rest) else Nat.toDigits 10 magnitude ++ rest

mutual

/-- Write a value on one line in front of `rest`. -/
def compactChars (rest : List Char) : Json → List Char
  | .null => "null".toList ++ rest
  | .bool true => "true".toList ++ rest
  | .bool false => "false".toList ++ rest
  | .int negative magnitude => intChars negative magnitude rest
  | .fraction text => text.toList ++ rest
  | .str s => stringChars s rest
  | .arr [] => '[' :: ']' :: rest
  | .arr (j :: js) => '[' :: compactChars (compactItems rest js) j
  | .obj [] => '{' :: '}' :: rest
  | .obj ((k, j) :: ms) => '{' :: stringChars k (':' :: compactChars (compactMembers rest ms) j)
  | .unreadable => "null".toList ++ rest

/-- Write the items after the first, and the closing bracket. -/
def compactItems (rest : List Char) : List Json → List Char
  | [] => ']' :: rest
  | j :: js => ',' :: compactChars (compactItems rest js) j

/-- Write the members after the first, and the closing brace. -/
def compactMembers (rest : List Char) : List (String × Json) → List Char
  | [] => '}' :: rest
  | (k, j) :: ms => ',' :: stringChars k (':' :: compactChars (compactMembers rest ms) j)

end

/-- Start a new line at the given depth, in front of `rest`. -/
def newline (depth : Nat) (rest : List Char) : List Char :=
  '\n' :: (List.replicate (2 * depth) ' ' ++ rest)

mutual

/-- Write a value over several lines in front of `rest`. -/
def prettyChars (depth : Nat) (rest : List Char) : Json → List Char
  | .null => "null".toList ++ rest
  | .bool true => "true".toList ++ rest
  | .bool false => "false".toList ++ rest
  | .int negative magnitude => intChars negative magnitude rest
  | .fraction text => text.toList ++ rest
  | .str s => stringChars s rest
  | .arr [] => '[' :: ']' :: rest
  | .arr (j :: js) =>
    '[' :: newline (depth + 1) (prettyChars (depth + 1) (prettyItems depth rest js) j)
  | .obj [] => '{' :: '}' :: rest
  | .obj ((k, j) :: ms) =>
    '{' :: newline (depth + 1)
      (stringChars k (':' :: ' ' :: prettyChars (depth + 1) (prettyMembers depth rest ms) j))
  | .unreadable => "null".toList ++ rest

/-- Write the items after the first on lines of their own, and the closing bracket. -/
def prettyItems (depth : Nat) (rest : List Char) : List Json → List Char
  | [] => newline depth (']' :: rest)
  | j :: js => ',' :: newline (depth + 1) (prettyChars (depth + 1) (prettyItems depth rest js) j)

/-- Write the members after the first on lines of their own, and the closing brace. -/
def prettyMembers (depth : Nat) (rest : List Char) : List (String × Json) → List Char
  | [] => newline depth ('}' :: rest)
  | (k, j) :: ms =>
    ',' :: newline (depth + 1)
      (stringChars k (':' :: ' ' :: prettyChars (depth + 1) (prettyMembers depth rest ms) j))

end

/-- The value on one line. -/
def compact (j : Json) : String := String.ofList (compactChars [] j)

/-- The value over several lines, indented by two blanks per level. -/
def pretty (j : Json) : String := String.ofList (prettyChars 0 [] j)

end Json

end FlowRecovery
