/-
Reading records out of JSON values.

A record is written as an object with its fields by name, in any order and among
names that mean nothing here, or as an array with its fields in the order of
their declaration.  A field may not be given twice.  A choice is a record whose
first field, the tag, says which alternative the other fields describe.  A choice is
taken over as a whole before it is read, so nothing in it may be unreadable or
nested too deeply; what is not part of a choice may, if nobody reads it.
-/
import FlowRecovery.Json.Reader

namespace FlowRecovery.Json

/-- The fields that a record was given. -/
structure Fields where
  /-- Whether they were given by position. -/
  positional : Bool
  given : List (String × Json)

/-- How often a name occurs among members. -/
def occurrences (name : String) (members : List (String × Json)) : Nat :=
  members.countP (·.1 == name)

/-- The fields of a record with the given names. -/
def fields? (names : List String) : Json → Option Fields
  | .obj members =>
    if names.all (fun name => occurrences name members ≤ 1) then some ⟨false, members⟩ else none
  | .arr items => if items.length ≤ names.length then some ⟨true, names.zip items⟩ else none
  | _ => none

/-- A field that has to be given. -/
def Fields.required {α : Type} (r : Fields) (name : String) (read : Json → Option α) : Option α :=
  (r.given.lookup name).bind read

/-- A field that may be null. -/
def nullable {α : Type} (read : Json → Option α) : Json → Option (Option α)
  | .null => some none
  | j => (read j).map some

/-- A field that may be null, and may be left out of an object. -/
def Fields.optional {α : Type} (r : Fields) (name : String) (read : Json → Option α) :
    Option (Option α) :=
  match r.given.lookup name with
  | some j => nullable read j
  | none => if r.positional then none else some none

/-- A field that may be null, and may be left out. -/
def Fields.optionalAnywhere {α : Type} (r : Fields) (name : String) (read : Json → Option α) :
    Option (Option α) :=
  match r.given.lookup name with
  | some j => nullable read j
  | none => some none

/-- A field that takes the default when it is left out. -/
def Fields.withDefault {α : Type} (r : Fields) (name : String) (default : α)
    (read : Json → Option α) : Option α :=
  match r.given.lookup name with
  | some j => read j
  | none => some default

/-- How deeply a value may be nested. -/
def nestingLimit : Nat := 127

mutual

/-- Whether the value can be taken over as a whole inside `outer` others. -/
def settled (outer : Nat) : Json → Bool
  | .int _ magnitude => inRange (Nat.toDigits 10 magnitude) [] []
  | .arr items => outer < nestingLimit && settledItems (outer + 1) items
  | .obj members => outer < nestingLimit && settledMembers (outer + 1) members
  | .unreadable => false
  | _ => true

/-- Whether all items can be taken over. -/
def settledItems (outer : Nat) : List Json → Bool
  | [] => true
  | j :: js => settled outer j && settledItems outer js

/-- Whether all members can be taken over. -/
def settledMembers (outer : Nat) : List (String × Json) → Bool
  | [] => true
  | (_, j) :: ms => settled outer j && settledMembers outer ms

end

/-- The tag of a choice as it is written, and the record of the other fields. -/
def split? (tag : String) : Json → Option (Json × Json)
  | .obj members =>
    if occurrences tag members = 1 then
      (members.lookup tag).map fun t => (t, .obj (members.filter (·.1 != tag)))
    else none
  | .arr (t :: items) => some (t, .arr items)
  | _ => none

/-- The name of an alternative, given as it is or by its number. -/
def alternative? (names : List String) : Json → Option String
  | .str name => some name
  | .int false n => names[n]?
  | _ => none

/-- The tag of a choice among alternatives, and the record of the other fields. -/
def tagged? (tag : String) (names : List String) (j : Json) : Option (String × Json) := do
  let (t, rest) ← j.split? tag
  return (← alternative? names t, rest)

/-- Read a choice that is not part of another one.  It has `outer` others around it, and
its tag is given by name. -/
def outermost? {α : Type} (tag : String) (outer : Nat) (read : Json → Option α) (j : Json) :
    Option α :=
  match j.settled outer, j.split? tag with
  | true, some (.str _, _) => read j
  | _, _ => none

/-- A natural number below the bound. -/
def natBelow? (bound : Nat) : Json → Option Nat
  | .int false n => if n < bound then some n else none
  | _ => none

/-- A natural number. -/
def nat? : Json → Option Nat
  | .int false n => some n
  | _ => none

/-- A 64-bit word. -/
def word? (j : Json) : Option Word := (natBelow? UInt64.size j).map UInt64.ofNat

/-- A 32-bit word. -/
def word32? (j : Json) : Option UInt32 := (natBelow? UInt32.size j).map UInt32.ofNat

/-- A byte. -/
def byte? (j : Json) : Option UInt8 := (natBelow? UInt8.size j).map UInt8.ofNat

/-- A signed 64-bit word; a zero has no sign. -/
def int64? : Json → Option Int64
  | .int false n => if n < 0x8000000000000000 then some (Int64.ofNat n) else none
  | .int true n => if 0 < n ∧ n ≤ 0x8000000000000000 then some (Int64.ofInt (-(n : Int))) else none
  | _ => none

/-- A truth value. -/
def bool? : Json → Option Bool
  | .bool b => some b
  | _ => none

/-- A string. -/
def str? : Json → Option String
  | .str s => some s
  | _ => none

/-- A list whose items all read. -/
def list? {α : Type} (read : Json → Option α) : Json → Option (List α)
  | .arr items => items.mapM read
  | _ => none

/-- One of several names, written as a string or as an object with that name
alone and null behind it. -/
def name? : Json → Option String
  | .str s => some s
  | .obj [(s, .null)] => some s
  | _ => none

/-- One of several names inside a choice, where an empty object may stand for null. -/
def nestedName? : Json → Option String
  | .obj [(s, .obj [])] => some s
  | j => name? j

/-- The signed word as a JSON value. -/
def int64 (i : Int64) : Json := .int (i.toInt < 0) i.toInt.natAbs

end FlowRecovery.Json
