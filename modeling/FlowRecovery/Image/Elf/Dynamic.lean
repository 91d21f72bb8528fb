/-
The tables that the dynamic segment of an ELF file points to.

The dynamic segment is a list of tagged values, up to the first with tag zero.
Tables are given by their addresses, which the loadable segments map to offsets
in the file.  No entry says how many symbols there are: the hash table does, and
no relocation record may refer to one behind them.
-/
import FlowRecovery.Image.Elf

namespace FlowRecovery.Elf

/-- The offset in the file of what is loaded at an address. -/
def fileOffset? (headers : List ProgramHeader) (address : Nat) : Option Nat :=
  (headers.find? fun h =>
    h.type = 1 && h.address ≤ address && address - h.address < h.memorySize).bind fun h =>
      let offset := h.offset + (address - h.address)
      if offset < UInt64.size then some offset else none

/-- Tagged values up to the first with tag zero. -/
def upToNull : List (Nat × Nat) → List (Nat × Nat)
  | [] => []
  | (tag, value) :: rest => if tag = 0 then [] else (tag, value) :: upToNull rest

/-- The last value with a tag. -/
def lastValue? (tags : List (Nat × Nat)) (tag : Nat) : Option Nat :=
  (tags.filter (·.1 == tag)).getLast?.map (·.2)

/-- The greatest number in a list. -/
def greatest (l : List Nat) : Nat := l.foldl max 0

/-- Follow a chain of hashes up to the first odd one; how far that is.  The chain ends
with the file at the latest. -/
def chainLength (e : Encoding) (b : Bytes) (offset : Nat) : Nat → Checked ImageError Nat
  | 0 => malformed (.badOffset offset)
  | fuel + 1 => do
    let hash ← Required.nat e.endian b offset 4
    if hash % 2 = 1 then return 1 else return (← chainLength e b (offset + 4) fuel) + 1

/-- The greatest of the numbers of four bytes from an offset on.  If the file ends before
so many, nothing else is looked at. -/
def greatestAt (e : Encoding) (b : Bytes) (offset count : Nat) : Checked ImageError Nat := do
  need (offset ≤ b.size) (.badOffset offset)
  need (offset + 4 * count ≤ b.size) (.tooBig 4 ((b.size - offset) % 4))
  return greatest (← Required.records (Required.nat e.endian b · 4) 4 offset count)

/-- How many symbols the GNU hash table at an offset is for. -/
def gnuHashCount (e : Encoding) (b : Bytes) (offset : Nat) : Checked ImageError Nat := do
  let [buckets, first, bloom] ← Required.record e.endian b offset [4, 4, 4] | Required.incomplete
  need (buckets ≠ 0 && first ≠ 0 && bloom ≠ 0) (.gnuHash buckets first bloom)
  let start := offset + 16 + bloom * e.width
  let last ← greatestAt e b start buckets
  if last < first then return 0
  return last + (← chainLength e b (start + buckets * 4 + (last - first) * 4) (b.size + 1))

/-- The machines whose hash tables have entries as wide as an address: S/390, and the
number that Alpha files had before one was assigned. -/
def wideHashMachines : List Nat := [22, 0x9026]

/-- How many symbols the hash table at an offset is for. -/
def hashCount (e : Encoding) (machine : Nat) (b : Bytes) (offset : Nat) : Checked ImageError Nat :=
  Required.nat e.endian b (offset + 4) (if wideHashMachines.contains machine then e.width else 4)

/-- What the dynamic segment points to. -/
structure Dynamic where
  symbols : List Symbol := []
  names : StringTable := {}
  relocs : List Reloc := []
  deriving DecidableEq, Repr, Inhabited

/-- Read the tagged values of the dynamic segment. -/
def readTags (e : Encoding) (b : Bytes) (h : ProgramHeader) :
    Checked ImageError (List (Nat × Nat)) := do
  if h.fileSize = 0 then return []
  let segment ← needed (.dynamicSize h.offset h.fileSize) (Binary.slice? b h.offset h.fileSize)
  let size := 2 * e.width
  let pairs ← Required.records (fun offset => do
    let [tag, value] ← Required.record e.endian segment offset [e.width, e.width]
      | Required.incomplete
    return (tag, value)) size 0 (h.fileSize / size)
  return upToNull pairs

/-- Read the tables that the tagged values point to. -/
def Dynamic.ofTags (e : Encoding) (machine : Nat) (b : Bytes) (headers : List ProgramHeader)
    (tags : List (Nat × Nat)) : Checked ImageError Dynamic := do
  let value (tag : Nat) : Nat := (lastValue? tags tag).getD 0
  let offset? (tag : Nat) : Option Nat := (lastValue? tags tag).bind (fileOffset? headers)
  let offset (tag : Nat) : Nat := (offset? tag).getD 0
  let names ← StringTable.read b (offset 5) (value 10)
  let withAddends ← e.readRelocs true b (offset 7) (value 8)
  let without ← e.readRelocs false b (offset 17) (value 18)
  let linkage ← e.readRelocs (value 20 == 7) b (offset 23) (value 2)
  let hashed ← match offset? 0x6ffffef5, offset? 4 with
    | some at_, _ => gnuHashCount e b at_
    | none, some at_ => hashCount e machine b at_
    | none, none => .ok 0
  let relocs := withAddends ++ without ++ linkage
  let referred := greatest (relocs.map (·.symbol))
  let count := if referred = 0 then hashed else max hashed (referred + 1)
  let symbols ← e.readSymbols b (offset 6) count
  return { symbols, names, relocs }

/-- Read the tables of the first dynamic segment, if there is one. -/
def Dynamic.read (e : Encoding) (machine : Nat) (b : Bytes) (headers : List ProgramHeader) :
    Checked ImageError Dynamic := do
  let some h := headers.find? (·.type == 2) | return {}
  Dynamic.ofTags e machine b headers (← readTags e b h)

end FlowRecovery.Elf
