/-
From an ELF file to an image.

Only sections that are allocated and not empty are kept.  In an executable they
stand at the addresses in their headers.  A relocatable object is laid out from
`0x1000` upwards, each section at the next multiple of its alignment, and its
relocations are applied.  In an executable the dynamic relocations give the
imports, and the places whose values depend on where the program is loaded.
-/
import FlowRecovery.Image.Contents
import FlowRecovery.Image.Elf

namespace FlowRecovery

namespace Elf

variable {ε : Type}

/-- The architecture of a file. -/
def File.arch (f : File) : Except ImageError Arch :=
  if f.machine = 62 then .ok .x86_64
  else if f.machine = 3 then .ok .x86
  else .error (.unsupportedArch ("ELF machine " ++ Text.decimal f.machine))

/-- Whether a file is an object that is not yet linked. -/
def File.relocatable (f : File) : Bool := f.type == 1

/-- Whether the section is part of the running program. -/
def SectionHeader.loaded (h : SectionHeader) : Bool := h.flags / 2 % 2 = 1 && h.size ≠ 0

/-- The least multiple of the section's alignment that is not below `next`. -/
def SectionHeader.alignUp (h : SectionHeader) (next : Addr) : Checked ε Addr :=
  let align := max h.align.toNat 1
  let address := (next.toNat + align - 1) / align * align
  if address < UInt64.size then .ok (.ofNat address) else .error .overflow

/-- The contents of a section. -/
def SectionHeader.contents (h : SectionHeader) (b : Bytes) : Except ImageError (Option Bytes) :=
  if h.type = noBitsType then .ok none else (fileSlice b h.offset h.size).map some

/-- The section of a header at an address. -/
def SectionHeader.section (h : SectionHeader) (names : StringTable) (address : Addr)
    (data : Option Bytes) : Section :=
  { name := (names.get? h.name).getD "", address, size := h.size
    executable := h.flags / 4 % 2 = 1, writable := h.flags % 2 = 1, data }

/-- The loaded sections of an object with their indices, laid out from `next` on. -/
def layOut (names : StringTable) (b : Bytes) (next : Addr) :
    List (SectionHeader × Nat) → Checked ImageError (List (Nat × Section))
  | [] => .ok []
  | (h, index) :: rest =>
    if h.loaded then do
      let address ← h.alignUp next
      let limit ← checkedAdd address h.size
      let data ← Checked.lift (h.contents b)
      let others ← layOut names b limit rest
      return (index, h.section names address data) :: others
    else layOut names b next rest

/-- The loaded sections of an executable with their indices. -/
def inPlace (names : StringTable) (b : Bytes) :
    List (SectionHeader × Nat) → Checked ImageError (List (Nat × Section))
  | [] => .ok []
  | (h, index) :: rest =>
    if h.loaded then do
      let data ← Checked.lift (h.contents b)
      let others ← inPlace names b rest
      return (index, h.section names h.address data) :: others
    else inPlace names b rest

/-- Where the sections stand, by their indices. -/
abbrev Bases := List (Nat × Addr)

/-- A relocated object: its sections, and the relocations that depend on where it is loaded. -/
structure Linked where
  sections : List Section
  relocations : List Relocation := []
  deriving DecidableEq, Repr, Inhabited

/-- Apply a relocation record for the section at `base`. -/
def applyReloc (symbols : List Symbol) (bases : Bases) (base : Addr) (l : Linked) (r : Reloc) :
    Checked ε Linked := do
  let site ← checkedAdd base r.offset
  match symbols[r.symbol]? with
  | none => return l
  | some symbol =>
    match bases.lookup symbol.sect with
    | none => return l
    | some symbolBase =>
      let target ← checkedAdd symbolBase symbol.value
      let addend := r.addend.getD 0
      let value := target + addend.toUInt64
      let absolute (width : Nat) : Linked :=
        { sections := patchSections site value width l.sections
          relocations := l.relocations ++ [{ site, target, size := .ofNat width, addend }] }
      match r.type with
      | 1 => return absolute 8
      | 10 => return absolute 4
      | 11 => return absolute 4
      | 2 => return { l with sections := patchSections site (value - site) 4 l.sections }
      | 4 => return { l with sections := patchSections site (value - site) 4 l.sections }
      | _ => return l

/-- Apply the relocation records of one section. -/
def applyTable (symbols : List Symbol) (bases : Bases) (l : Linked) (table : Nat × List Reloc) :
    Checked ε Linked :=
  match bases.lookup table.1 with
  | none => .ok l
  | some base => table.2.foldlM (applyReloc symbols bases base) l

/-- Apply all relocation records of an object; those of 32-bit objects are left. -/
def File.link (f : File) (arch : Arch) (bases : Bases) (sections : List Section) :
    Checked ε Linked :=
  match arch with
  | .x86 => .ok { sections }
  | .x86_64 => f.sectionRelocs.foldlM (applyTable f.symbols bases) { sections }

/-- What the dynamic relocations of an executable say. -/
structure DynamicLinks where
  imports : AddrMap Import := ∅
  relocations : List Relocation := []
  deriving DecidableEq, Repr, Inhabited

/-- Take over a dynamic relocation record.  A record for a symbol that is not defined
here is an import. -/
def File.dynamicLink (f : File) (arch : Arch) (sections : List Section) (l : DynamicLinks)
    (r : Reloc) : DynamicLinks :=
  let size := UInt8.ofNat arch.pointerSize
  let add (target : Addr) (addend : Int64) : DynamicLinks :=
    { l with relocations := l.relocations ++ [{ site := r.offset, target, size, addend }] }
  if r.type = 8 then
    match r.addend with
    | some addend => add 0 addend
    | none =>
      match storedValue? sections r.offset arch.pointerSize with
      | some value => add value 0
      | none => l
  else if r.type = 7 ∨ r.type = 6 ∨ r.type = 1 then
    match f.dynamicSymbols[r.symbol]? with
    | none => l
    | some symbol =>
      if symbol.sect = 0 then
        match f.dynamicNames.get? symbol.name with
        | none => l
        | some name =>
          if name.isEmpty then l
          else { l with imports := l.imports.insert r.offset { name, library := none } }
      else add symbol.value (r.addend.getD 0)
  else l

/-- Where a linked object starts: at the first symbol of a loaded section that is called
`_start` or `main`. -/
def File.objectEntry (f : File) (bases : Bases) : List Symbol → Checked ε (Option Addr)
  | [] => .ok none
  | symbol :: rest =>
    match f.symbolNames.get? symbol.name, bases.lookup symbol.sect with
    | some name, some base =>
      if name = "_start" ∨ name = "main" then (checkedAdd base symbol.value).map some
      else f.objectEntry bases rest
    | _, _ => f.objectEntry bases rest

/-- Relocations in the order of their sites. -/
def bySite (l : List Relocation) : List Relocation := l.mergeSort fun r s => r.site ≤ s.site

/-- Load a linked object. -/
def File.loadObject (f : File) (arch : Arch) (b : Bytes) : Checked ImageError Image := do
  let placed ← layOut f.sectionNames b 0x1000 f.sections.zipIdx
  let bases : Bases := placed.map fun p => (p.1, p.2.address)
  let linked ← f.link arch bases (placed.map (·.2))
  let entry ← f.objectEntry bases f.symbols
  return { arch, format := .elf, entry, sections := linked.sections
           relocations := bySite linked.relocations }

/-- Load an executable. -/
def File.loadExecutable (f : File) (arch : Arch) (b : Bytes) : Checked ImageError Image := do
  let sections := (← inPlace f.sectionNames b f.sections.zipIdx).map (·.2)
  let links := f.dynamicRelocs.foldl (f.dynamicLink arch sections) {}
  return { arch, format := .elf, entry := if f.entry = 0 then none else some f.entry, sections
           imports := links.imports, relocations := bySite links.relocations }

/-- Load a file. -/
def File.load (f : File) (b : Bytes) : Checked ImageError Image := do
  let arch ← Checked.lift f.arch
  if f.relocatable then f.loadObject arch b else f.loadExecutable arch b

end Elf

end FlowRecovery
