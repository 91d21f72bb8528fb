/-
The tables of an ELF file.

The class of a file says how wide its addresses are, and its data encoding how
numbers are written.  What is kept are the tables that loading needs: section
headers, symbols, relocations, and the ones that the dynamic segment points to.
-/
import FlowRecovery.Image.StringTable

namespace FlowRecovery.Elf

open Binary (Endian)

/-- How the tables of a file are written. -/
structure Encoding where
  wide : Bool
  endian : Endian
  deriving DecidableEq, Repr, Inhabited

/-- A section header. -/
structure SectionHeader where
  name : Nat
  type : Nat
  flags : Nat
  address : Word
  offset : Word
  size : Word
  link : Nat
  info : Nat
  align : Word
  entrySize : Nat
  deriving DecidableEq, Repr, Inhabited

/-- A program header. -/
structure ProgramHeader where
  type : Nat
  offset : Nat
  address : Nat
  fileSize : Nat
  memorySize : Nat
  deriving DecidableEq, Repr, Inhabited

/-- A symbol: its name, the section that it belongs to, and its value. -/
structure Symbol where
  name : Nat
  sect : Nat
  value : Word
  deriving DecidableEq, Repr, Inhabited

/-- A relocation record; the addend may be kept at the site instead. -/
structure Reloc where
  offset : Word
  symbol : Nat
  type : Nat
  addend : Option Int64
  deriving DecidableEq, Repr, Inhabited

/-- The tables of a file. -/
structure File where
  machine : Nat
  /-- What kind of file it is. -/
  type : Nat
  entry : Word
  sections : List SectionHeader
  sectionNames : StringTable := {}
  symbols : List Symbol := []
  symbolNames : StringTable := {}
  /-- The relocation records of a section, by the index of that section. -/
  sectionRelocs : List (Nat × List Reloc) := []
  dynamicSymbols : List Symbol := []
  dynamicNames : StringTable := {}
  /-- The dynamic relocation records: with addends, without, and those of the
  procedure linkage table. -/
  dynamicRelocs : List Reloc := []
  deriving DecidableEq, Repr, Inhabited

/-- Section header types. -/
def symbolTableType : Nat := 2
/-- Records with addends. -/
def relaType : Nat := 4
/-- A section without contents in the file. -/
def noBitsType : Nat := 8
/-- Records without addends. -/
def relType : Nat := 9

namespace Encoding

/-- The width of an address. -/
def width (e : Encoding) : Nat := if e.wide then 8 else 4

/-- The size of a section header. -/
def sectionSize (e : Encoding) : Nat := if e.wide then 64 else 40

/-- The size of a program header. -/
def programSize (e : Encoding) : Nat := if e.wide then 56 else 32

/-- The size of a symbol. -/
def symbolSize (e : Encoding) : Nat := if e.wide then 24 else 16

/-- The size of a relocation record. -/
def relocSize (e : Encoding) (hasAddend : Bool) : Nat :=
  if hasAddend then 3 * e.width else 2 * e.width

/-- Read a section header. -/
def readSection (e : Encoding) (b : Bytes) (offset : Nat) : Checked ImageError SectionHeader := do
  let w := e.width
  let [name, type, flags, address, at_, size, link, info, align, entrySize] ←
    Required.record e.endian b offset [4, 4, w, w, w, w, 4, 4, w, w] | Required.incomplete
  return { name, type, flags, address := .ofNat address, offset := .ofNat at_
           size := .ofNat size, link, info, align := .ofNat align, entrySize }

/-- Read a program header. -/
def readProgram (e : Encoding) (b : Bytes) (offset : Nat) : Checked ImageError ProgramHeader := do
  if e.wide then
    let [type, _, at_, address, _, fileSize, memorySize, _] ←
      Required.record e.endian b offset [4, 4, 8, 8, 8, 8, 8, 8] | Required.incomplete
    return { type, offset := at_, address, fileSize, memorySize }
  else
    let [type, at_, address, _, fileSize, memorySize, _, _] ←
      Required.record e.endian b offset [4, 4, 4, 4, 4, 4, 4, 4] | Required.incomplete
    return { type, offset := at_, address, fileSize, memorySize }

/-- Read a symbol. -/
def readSymbol (e : Encoding) (b : Bytes) (offset : Nat) : Checked ImageError Symbol := do
  if e.wide then
    let [name, _, _, sect, value, _] ←
      Required.record e.endian b offset [4, 1, 1, 2, 8, 8] | Required.incomplete
    return { name, sect, value := .ofNat value }
  else
    let [name, value, _, _, _, sect] ←
      Required.record e.endian b offset [4, 4, 4, 1, 1, 2] | Required.incomplete
    return { name, sect, value := .ofNat value }

/-- The signed number whose written form is the given one. -/
def signed (e : Encoding) (n : Nat) : Int64 :=
  if e.wide then (UInt64.ofNat n).toInt64 else (UInt32.ofNat n).toInt32.toInt64

/-- Read a relocation record. -/
def readReloc (e : Encoding) (hasAddend : Bool) (b : Bytes) (offset : Nat) :
    Checked ImageError Reloc := do
  let w := e.width
  let half := if e.wide then UInt32.size else UInt8.size
  let at_ :: info :: addend ←
    Required.record e.endian b offset (if hasAddend then [w, w, w] else [w, w])
    | Required.incomplete
  return { offset := .ofNat at_, symbol := info / half, type := info % half
           addend := addend.head?.map e.signed }

/-- Read a table of relocation records. -/
def readRelocs (e : Encoding) (hasAddend : Bool) (b : Bytes) (offset size : Nat) :
    Checked ImageError (List Reloc) := do
  if size = 0 then return []
  let table ← Required.slice b offset size
  Required.records (e.readReloc hasAddend table) (e.relocSize hasAddend) 0
    (size / e.relocSize hasAddend)

/-- Read a table of symbols; even an empty one has to lie inside the file. -/
def readSymbols (e : Encoding) (b : Bytes) (offset count : Nat) :
    Checked ImageError (List Symbol) := do
  let size := count * e.symbolSize
  need (size < UInt64.size) (.symbolCount offset count)
  let table ← Required.slice b offset size
  Required.records (e.readSymbol table) e.symbolSize 0 count

/-- Read the program headers; there cannot be more than fit into the file. -/
def readPrograms (e : Encoding) (b : Bytes) (offset count : Nat) :
    Checked ImageError (List ProgramHeader) := do
  need (count ≤ b.size / e.programSize) (.tooShort count "program headers")
  Required.records (e.readProgram b) e.programSize offset count

/-- Read the section headers; there cannot be more than fit into the file.  No count at
all means that the first header has it. -/
def readSections (e : Encoding) (b : Bytes) (offset count : Nat) :
    Checked ImageError (List SectionHeader) := do
  if offset = 0 then return []
  let first ← e.readSection b offset
  let count := if count = 0 then first.size.toNat else count
  need (count ≤ b.size / e.sectionSize) (.tooShort count "section headers")
  let size := e.sectionSize
  let others ← Required.records (e.readSection b) size (offset + size) (count - 1)
  return first :: others

end Encoding

/-- Check that the contents of a section lie inside a file of the given size, and that
the section ends inside the memory. -/
def SectionHeader.check (h : SectionHeader) (size : Nat) : Checked ImageError Unit := do
  if h.type = noBitsType ∨ h.size = 0 then return
  let limit := h.offset.toNat + h.size.toNat
  need (limit ≤ size)
    (.sectionOffset h.name h.offset.toNat h.size.toNat (UInt64.size ≤ limit))
  need (h.address.toNat + h.size.toNat < UInt64.size)
    (.sectionAddress h.name h.address.toNat h.size.toNat)

/-- Read the string table of a section, if there is one at the index.  The greatest
index stands for the one that the first header links to. -/
def readTexts (b : Bytes) (sections : List SectionHeader) (index : Nat) :
    Checked ImageError StringTable := do
  let index := if index = 0xffff then ((sections.head?).map (·.link)).getD 0 else index
  let some h := sections[index]? | return {}
  h.check b.size
  StringTable.read b h.offset.toNat h.size.toNat

end FlowRecovery.Elf
