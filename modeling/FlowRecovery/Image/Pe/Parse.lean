/-
Reading a PE file.

Every imported library has a table of what is imported from it and a table of
slots; they go in parallel.  An import is given by name or by a number.  The other
directories are only checked.
-/
import FlowRecovery.Image.Pe.Directories

namespace FlowRecovery.Pe

namespace Lookup

/-- Read pointers up to the first that is zero.  They end with the file at the latest. -/
def readPointers (l : Lookup) (offset : Nat) : Nat → Checked ImageError (List Nat)
  | 0 => malformed (.badOffset offset)
  | fuel + 1 => do
    let pointer ← Required.nat .little l.bytes offset l.width
    if pointer = 0 then return []
    return pointer :: (← l.readPointers (offset + l.width) fuel)

/-- The name of what a pointer imports; none if the pointer leads nowhere. -/
def importName (l : Lookup) (pointer : Nat) : Checked ImageError (Option String) := do
  if l.ordinalFlag ≤ pointer then
    return some ("ORDINAL " ++ Text.decimal (pointer % 0x10000))
  else
    let some at_ ← l.offset? (pointer % 0x80000000) | return none
    let _ ← Required.nat .little l.bytes at_ 2
    return some (← Required.text l.bytes (at_ + 2))

/-- The names in the table at an offset.  They end with the file at the latest. -/
def importNames (l : Lookup) (offset : Nat) : Nat → Checked ImageError (List String)
  | 0 => malformed (.badOffset offset)
  | fuel + 1 => do
    let pointer ← Required.nat .little l.bytes offset l.width
    if pointer = 0 then return []
    let name ← l.importName pointer
    return name.toList ++ (← l.importNames (offset + l.width) fuel)

/-- The imports from one library: where the names are, what the library is called, and
where the slots are. -/
def library (l : Lookup) (names name slots : Nat) : Checked ImageError (List ImportEntry) := do
  let unnamed := .libraryAddress name (l.sections.map (·.written))
  let library ← Required.text l.bytes (← l.offset name unnamed)
  let table ← match ← l.offset? names with
    | some at_ => pure (some at_)
    | none => l.offset? slots
  let imported ← match table with
    | some at_ => l.importNames at_ (l.bytes.size + 1)
    | none => pure []
  let _ ← l.readPointers (← l.offset slots (.slotsAddress slots library)) (l.bytes.size + 1)
  return imported.mapIdx fun n name => { slot := slots + n * l.width, name, library }

/-- The imports of the libraries in the directory at an offset.  They end with the file
at the latest. -/
def libraries (l : Lookup) (offset : Nat) : Nat → Checked ImageError (List ImportEntry)
  | 0 => malformed (.badOffset offset)
  | fuel + 1 => do
    match ← Required.record .little l.bytes offset [4, 4, 4, 4, 4] with
    | [0, 0, 0, 0, 0] => return []
    | [names, _, _, name, slots] =>
      return (← l.library names name slots) ++ (← l.libraries (offset + 20) fuel)
    | _ => Required.incomplete

/-- The imports that a directory lists. -/
def imports (l : Lookup) (d : Directory) : Checked ImageError (List ImportEntry) := do
  let address := d.address.toNat
  l.libraries (← l.offset address (.importsAddress address)) (l.bytes.size + 1)

end Lookup

/-- Check the header of the older system, and give the offset of the one behind it.  Its
numbers have two bytes; there are two gaps in it, and it ends with the offset.  A program
of 64 bytes follows. -/
def readStart (b : Bytes) : Checked ImageError Nat := do
  let _ ← Required.record .little b 0 (List.replicate 14 2)
  let _ ← Required.record .little b 36 [2, 2]
  let start ← needed .headerPointer (Binary.nat? .little b 0x3c 4)
  let signature ← needed (.headerSignature start) (Binary.nat? .little b start 4)
  need (signature = 0x4550) (.badSignature signature)
  need (128 ≤ b.size) .stub
  return start

/-- Read the tables of a file. -/
def File.read (traced : Bool) (b : Bytes) : Checked ImageError File := do
  let start ← readStart b
  let header ← FileHeader.read b (start + 4)
  let optional ← if header.optionalSize = 0 then pure none
    else some <$> OptionalHeader.read b (start + 24)
  let sections ← header.readSections b (start + 24 + header.optionalSize)
  match optional with
  | none =>
    return { machine := header.machine, imageBase := 0, entry := 0, sections, imports := []
             baseRelocations := none }
  | some h =>
    let l : Lookup :=
      { bytes := b, sections, fileAlign := h.fileAlign, wide := h.wide, traced }
    if let some d := h.directory? 0 then l.traceExports d
    let imports ← match h.directory? 1 with
      | none => pure []
      | some d => l.imports d
    if let some d := h.directory? 6 then l.checkDebug d
    if header.machine = 0x8664 then
      if let some d := h.directory? 3 then l.checkUnwinding d
    if let some d := h.directory? 4 then checkCertificates b d
    return { machine := header.machine, imageBase := h.imageBase, entry := h.entry, sections
             imports, baseRelocations := h.directory? 5 }

end FlowRecovery.Pe
