/-
Layouts: which blocks make up a function.

The entries of functions are inferred from the store: the blocks that no
successor edge leads to, import stubs apart.  Calls are no edges.  The blocks of
a function are those reachable from its entry by successor edges without passing
through another entry.

* `Store.entries` — the inferred entries, in address order;
* `Store.closure` — the blocks of a function;
* `Store.layout` — the same with the function's name and the range it spans;
* `Layout.overlapping` — the entries that lie inside another function's range.
-/
import FlowRecovery.Fault
import FlowRecovery.Json.Record
import FlowRecovery.Store

namespace FlowRecovery

/-- How functions are named. -/
structure Naming where
  /-- The name of the function at the program's entry. -/
  entryName : String := "entry_point"
  /-- What the names of all others start with; the address follows. -/
  functionPrefix : String := "function"
  programEntry : Option Addr := none
  deriving DecidableEq, Repr, Inhabited

namespace Naming

/-- The name of the function at an address. -/
def name (n : Naming) (entry : Addr) : String :=
  if n.programEntry = some entry then n.entryName else n.functionPrefix ++ "_" ++ Text.hex entry

/-- The naming as JSON; a missing program entry is left out. -/
def toJson (n : Naming) : Json :=
  let programEntry := match n.programEntry with
    | none => []
    | some entry => [("program_entry", Json.word entry)]
  .obj ([("entry_name", .str n.entryName), ("function_prefix", .str n.functionPrefix)]
    ++ programEntry)

/-- Read a naming. -/
def ofJson? (j : Json) : Option Naming := do
  let r ← j.fields? ["entry_name", "function_prefix", "program_entry"]
  return { entryName := ← r.required "entry_name" Json.str?
           functionPrefix := ← r.required "function_prefix" Json.str?
           programEntry := ← r.optionalAnywhere "program_entry" Json.word? }

end Naming

/-- The blocks of a function and the range that they span. -/
structure Layout where
  entry : Addr
  name : String
  blocks : List Addr
  low : Addr
  high : Addr
  deriving DecidableEq, Repr, Inhabited

namespace Layout

/-- The layout as JSON. -/
def toJson (l : Layout) : Json :=
  .obj [("entry", .word l.entry), ("name", .str l.name), ("blocks", .list .word l.blocks),
    ("low", .word l.low), ("high", .word l.high)]

/-- Read a layout. -/
def ofJson? (j : Json) : Option Layout := do
  let r ← j.fields? ["entry", "name", "blocks", "low", "high"]
  return { entry := ← r.required "entry" Json.word?
           name := ← r.required "name" Json.str?
           blocks := ← r.required "blocks" (Json.list? Json.word?)
           low := ← r.required "low" Json.word?
           high := ← r.required "high" Json.word? }

/-- Whether the layout's range has the entry of the other strictly inside. -/
def surrounds (l other : Layout) : Bool :=
  l.entry ≠ other.entry && l.low < other.entry && other.entry < l.high

/-- The entries that lie strictly inside another function's range. -/
def overlapping (layouts : List Layout) : List Addr :=
  (layouts.filter fun l => layouts.any (·.surrounds l)).map (·.entry)

end Layout

/-- Why a function could not be put together. -/
inductive AssembleError where
  | unknownEntry (entry : Addr)
  | missingTarget (entry block : Addr)
  | verify (error : VerifyError)
  deriving DecidableEq, Repr

/-- The text of the error. -/
def AssembleError.message : AssembleError → String
  | .unknownEntry entry => "no block at function entry " ++ Text.addr entry
  | .missingTarget entry block =>
    "block " ++ Text.addr block ++ " in function " ++ Text.addr entry
      ++ " has no usable transfer target"
  | .verify error => error.message

namespace Store

variable {ε : Type}

/-- Whether a successor edge leads to the address. -/
def hasPredecessor (s : Store) (a : Addr) : Bool := s.toList.any fun b => b.successors.contains a

/-- Whether a function starts with the block at the address. -/
def isEntry (s : Store) (a : Addr) : Checked ε Bool :=
  if s.hasPredecessor a then .ok false
  else
    match s.get? a with
    | some b => b.isImportStub.map (!·)
    | none => .ok false

/-- Where functions start, in address order. -/
def entries (s : Store) : Checked ε (List Addr) := s.addresses.filterM s.isEntry

/-- Where control may go from a block without leaving the function that starts at
`entry`: to blocks that are stored and are no other entry. -/
def within (s : Store) (entries : AddrSet) (entry : Addr) (b : Block) : List Addr :=
  b.successors.toList.filter fun a => s.contains a && (a = entry || !entries.contains a)

/-- Where the search for the members of a function goes on from a block: not to those that
have been found. -/
def ahead (s : Store) (entries : AddrSet) (entry : Addr) (members : AddrSet) (b : Block) :
    List Addr :=
  (s.within entries entry b).filter fun a => !members.contains a

theorem length_ahead_le (s : Store) (entries : AddrSet) (entry : Addr) (members : AddrSet)
    (b : Block) : (s.ahead entries entry members b).length ≤ 0x10000000000000000 :=
  Nat.le_trans (List.length_filter_le ..)
    (Nat.le_trans (List.length_filter_le ..) b.successors.size_le)

/-- Add the blocks that can be reached from the queue to the members. -/
def closureFrom (s : Store) (entries : AddrSet) (entry : Addr) (members : AddrSet)
    (queue : List Addr) : AddrSet :=
  match queue with
  | [] => members
  | a :: rest =>
    match s.get? a with
    | none => closureFrom s entries entry members rest
    | some b =>
      if _ha : a ∈ members then closureFrom s entries entry members rest
      else
        closureFrom s entries entry (members.insert a)
          (rest ++ s.ahead entries entry (members.insert a) b)
  -- A new member weighs more than all its successors on the queue.
  termination_by 0x10000000000000001 * (0x10000000000000000 - members.size) + queue.length
  decreasing_by
    · rw [List.length_cons]
      omega
    · rw [List.length_cons]
      omega
    · have h1 := AddrSet.size_insert_of_not_mem _ha
      have h2 := (members.insert a).size_le
      have h3 := s.length_ahead_le entries entry (members.insert a) b
      rw [List.length_append, List.length_cons]
      omega

/-- The blocks of the function that starts at `entry`, given where all functions start. -/
def closure (s : Store) (entries : AddrSet) (entry : Addr) : AddrSet :=
  s.closureFrom entries entry ∅ [entry]

/-- The greatest limit of the blocks at the given addresses. -/
def highest (s : Store) (least : Addr) (blocks : List Addr) : Checked ε Addr :=
  (blocks.filterMap s.get?).foldlM (fun high b => b.limit.map (max high)) least

/-- The layout of the function that starts at `entry`. -/
def layout (s : Store) (naming : Naming) (entries : AddrSet) (entry : Addr) :
    Checked AssembleError Layout := do
  let blocks := (s.closure entries entry).toList
  match blocks with
  | [] => Checked.refuse (.unknownEntry entry)
  | low :: _ =>
    let high ← s.highest 0 blocks
    return { entry, name := naming.name entry, blocks, low, high }

end Store

end FlowRecovery
