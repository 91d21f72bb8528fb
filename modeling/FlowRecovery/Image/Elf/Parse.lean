/-
Reading an ELF file.
-/
import FlowRecovery.Image.Elf.Dynamic

namespace FlowRecovery.Elf

/-- The encoding that the first bytes announce. -/
def Encoding.read (b : Bytes) : Checked ImageError Encoding := do
  let wide ← match b.getD 4 0 with
    | 1 => pure false
    | 2 => pure true
    | n => malformed (.elfClass n.toNat)
  let endian ← match b.getD 5 0 with
    | 1 => pure .little
    | 2 => pure .big
    | n => malformed (.elfEncoding n.toNat)
  return { wide, endian }

/-- Read the symbol table with the names of its symbols; the last one counts. -/
def readSymbolTable (e : Encoding) (b : Bytes) (sections : List SectionHeader) :
    Checked ImageError (List Symbol × StringTable) := do
  let some h := (sections.filter (·.type = symbolTableType)).getLast? | return ([], {})
  let count := if h.entrySize = 0 then 0 else h.size.toNat / h.entrySize
  let symbols ← e.readSymbols b h.offset.toNat count
  return (symbols, ← readTexts b sections h.link)

/-- Read the relocation sections in order, each with the section that it is for. -/
def readSectionRelocs (e : Encoding) (b : Bytes) (sections : List SectionHeader) :
    Checked ImageError (List (Nat × List Reloc)) :=
  (sections.filter fun h => h.type = relaType || h.type = relType).mapM fun h => do
    h.check b.size
    return (h.info, ← e.readRelocs (h.type == relaType) b h.offset.toNat h.size.toNat)

/-- Check that the first section of each of the types that give symbols versions, if there
is one, lies inside the file. -/
def checkVersions (b : Bytes) (sections : List SectionHeader) : Checked ImageError Unit :=
  [0x6fffffff, 0x6ffffffd, 0x6ffffffe].forM fun type => do
    let some h := sections.find? (·.type == type) | return
    let _ ← Required.slice b h.offset.toNat h.size.toNat

/-- Read the tables of a file. -/
def File.read (b : Bytes) : Checked ImageError File := do
  let e ← Encoding.read b
  let w := e.width
  let [type, machine, _, entry, programs, sections, _, _, _, programCount, _, sectionCount, names] ←
    Required.record e.endian b 16 [2, 2, 4, w, w, w, 4, 2, 2, 2, 2, 2, 2] | Required.incomplete
  let programHeaders ← e.readPrograms b programs programCount
  let sectionHeaders ← e.readSections b sections sectionCount
  let sectionNames ← readTexts b sectionHeaders names
  let (symbols, symbolNames) ← readSymbolTable e b sectionHeaders
  let dynamic ← Dynamic.read e machine b programHeaders
  let sectionRelocs ← readSectionRelocs e b sectionHeaders
  checkVersions b sectionHeaders
  return { machine, type, entry := .ofNat entry, sections := sectionHeaders, sectionNames
           symbols, symbolNames, sectionRelocs, dynamicSymbols := dynamic.symbols
           dynamicNames := dynamic.names, dynamicRelocs := dynamic.relocs }

end FlowRecovery.Elf
