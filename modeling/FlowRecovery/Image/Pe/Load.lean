/-
From a PE file to an image.

Sections stand in the order of their addresses.  The base relocations come in
blocks: a page, the size of the block, and an entry of two bytes per relocation,
whose upper four bits are its type.
-/
import FlowRecovery.Image.Contents
import FlowRecovery.Image.Pe

namespace FlowRecovery.Pe

variable {ε : Type}

/-- The architecture of a file. -/
def File.arch (f : File) : Except ImageError Arch :=
  if f.machine = 0x8664 then .ok .x86_64
  else if f.machine = 0x14c then .ok .x86
  else .error (.unsupportedArch ("PE machine " ++ Text.addr (.ofNat f.machine)))

/-- The size of a section in memory. -/
def SectionHeader.size (h : SectionHeader) : UInt32 :=
  if h.virtualSize = 0 then h.rawSize else h.virtualSize

/-- The contents of a section. -/
def SectionHeader.contents (h : SectionHeader) (b : Bytes) : Except ImageError (Option Bytes) :=
  if h.flags / 0x80 % 2 = 1 ∨ h.rawSize = 0 then .ok none
  else (fileSlice b h.rawOffset.toUInt64 (min h.rawSize h.size).toUInt64).map some

/-- The sections of a file that are not empty. -/
def loadSections (b : Bytes) (base : Addr) :
    List SectionHeader → Checked ImageError (List Section)
  | [] => .ok []
  | h :: rest =>
    if h.size = 0 then loadSections b base rest
    else do
      let data ← Checked.lift (h.contents b)
      let address ← checkedAdd base h.virtualAddress.toUInt64
      let others ← loadSections b base rest
      let first : Section :=
        { name := h.name, address, size := h.size.toUInt64
          executable := h.flags / 0x20000000 % 2 = 1, writable := h.flags / 0x80000000 % 2 = 1
          data }
      return first :: others

/-- The imports of a file by their slots; of several for one slot the last counts. -/
def loadImports (base : Addr) (imports : List ImportEntry) : Checked ε (AddrMap Import) :=
  imports.foldlM (fun m i => do
    let slot ← checkedAdd base (.ofNat i.slot)
    return m.insert slot { name := i.name, library := some i.library }) ∅

/-- The offset in the file of a relative address, by the larger of the two sizes of
a section. -/
def offsetOf? (address : UInt32) : List SectionHeader → Checked ε (Option Nat)
  | [] => .ok none
  | h :: rest =>
    if h.virtualAddress ≤ address then do
      let limit ← checkedAdd32 h.virtualAddress (max h.virtualSize h.rawSize)
      if address < limit then
        return some (← checkedAdd32 h.rawOffset (address - h.virtualAddress)).toNat
      else offsetOf? address rest
    else offsetOf? address rest

/-- The width of the value that a base relocation of the given type is for. -/
def relocWidth? (entry : Nat) : Option Nat :=
  match entry / 0x1000 with
  | 3 => some 4
  | 10 => some 8
  | _ => none

/-- The relocation of an entry in the block of a page, if the file has its value. -/
def blockEntry (sections : List Section) (base : Addr) (page entry : Nat) :
    Checked ε (Option Relocation) :=
  match relocWidth? entry with
  | none => .ok none
  | some width => do
    let site ← checkedAdd (← checkedAdd base (.ofNat page)) (.ofNat (entry % 0x1000))
    return (storedValue? sections site width).map fun target =>
      { site, target, size := .ofNat width, addend := 0 }

/-- The relocations of a block: those of its entries that are in the file. -/
def block (b : Bytes) (sections : List Section) (base : Addr) (page pos count : Nat) :
    Checked ε (List Relocation) := do
  let count := min count ((b.size - pos) / 2)
  let entries := (List.range count).filterMap fun n => Binary.nat? .little b (pos + 2 * n) 2
  return (← entries.mapM (blockEntry sections base page)).filterMap id

/-- The relocations of the blocks from `pos` up to `limit`. -/
def blocks (b : Bytes) (sections : List Section) (base : Addr) (limit pos : Nat) :
    Checked ε (List Relocation) :=
  if pos + 8 ≤ limit then
    match Binary.nat? .little b pos 4, Binary.nat? .little b (pos + 4) 4 with
    | some page, some size =>
      if size < 8 then .ok []
      else do
        let first ← block b sections base page (pos + 8) ((size - 8) / 2)
        let rest ← blocks b sections base limit (pos + size)
        return first ++ rest
    | _, _ => .ok []
  else .ok []
  termination_by limit - pos
  decreasing_by omega

/-- The base relocations of a file. -/
def File.relocations (f : File) (b : Bytes) (sections : List Section) :
    Checked ε (List Relocation) := do
  match f.baseRelocations with
  | none => return []
  | some d =>
    match ← offsetOf? d.address f.sections with
    | none => return []
    | some start => blocks b sections f.imageBase (start + d.size.toNat) start

/-- Load a file. -/
def File.load (f : File) (b : Bytes) : Checked ImageError Image := do
  let arch ← Checked.lift f.arch
  let sections ← loadSections b f.imageBase f.sections
  let sections := sections.mergeSort fun s t => s.address ≤ t.address
  let imports ← loadImports f.imageBase f.imports
  let relocations ← f.relocations b sections
  let entry ← if f.entry = 0 then pure none
    else some <$> checkedAdd f.imageBase (.ofNat f.entry)
  return { arch, format := .pe, entry, sections, imports, relocations }

end FlowRecovery.Pe
