/-
The tables of a PE file.

Addresses in the file are relative to the base of the image.  What is kept are
the section table, the imports, and where the base relocations are.
-/
import FlowRecovery.Image.Required
import FlowRecovery.Text.Quoted

namespace FlowRecovery.Pe

/-- An entry of the section table. -/
structure SectionHeader where
  /-- The eight bytes for the name. -/
  label : List UInt8
  /-- The name, if the label only says where it is. -/
  longName : Option String
  virtualSize : UInt32
  virtualAddress : UInt32
  rawSize : UInt32
  rawOffset : UInt32
  relocations : Nat
  lineNumbers : Nat
  relocationCount : Nat
  lineNumberCount : Nat
  flags : Nat
  deriving DecidableEq, Repr, Inhabited

/-- A part of the image that the header points to. -/
structure Directory where
  address : UInt32
  size : UInt32
  deriving DecidableEq, Repr, Inhabited

/-- An imported symbol, and the slot that its address is put into. -/
structure ImportEntry where
  slot : Nat
  name : String
  library : String
  deriving DecidableEq, Repr, Inhabited

/-- The tables of a file. -/
structure File where
  machine : Nat
  imageBase : Word
  entry : Nat
  sections : List SectionHeader
  imports : List ImportEntry
  baseRelocations : Option Directory
  deriving DecidableEq, Repr, Inhabited

/-- What the optional header says. -/
structure OptionalHeader where
  wide : Bool
  entry : Nat
  imageBase : Word
  fileAlign : Nat
  directories : List (Option Directory)
  deriving DecidableEq, Repr, Inhabited

/-- The directory with an index, if it is given. -/
def OptionalHeader.directory? (h : OptionalHeader) (index : Nat) : Option Directory :=
  (h.directories[index]?).join

/-- The value of a character in the base of 64 that long section names use. -/
def base64Value? (c : Char) : Option Nat :=
  if 'A' ≤ c ∧ c ≤ 'Z' then some (c.toNat - 'A'.toNat)
  else if 'a' ≤ c ∧ c ≤ 'z' then some (c.toNat - 'a'.toNat + 26)
  else if '0' ≤ c ∧ c ≤ '9' then some (c.toNat - '0'.toNat + 52)
  else if c = '+' then some 62
  else if c = '/' then some 63
  else none

/-- The number written in base 64. -/
def base64? (cs : List Char) : Option Nat :=
  cs.foldlM (fun n c => (base64Value? c).map (n * 64 + ·)) 0

/-- The name of a section; a label that is no text names nothing. -/
def SectionHeader.name (s : SectionHeader) : String :=
  match s.longName with
  | some name => name
  | none => (Binary.text? (s.label.takeWhile (· ≠ 0))).getD ""

/-- An entry of the section table in writing. -/
def SectionHeader.written (s : SectionHeader) : String :=
  let longName := match s.longName with
    | some name => "Some(" ++ Text.quoted name ++ ")"
    | none => "None"
  String.join ["SectionTable \x7b name: [",
    ", ".intercalate (s.label.map fun b => Text.decimal b.toNat),
    "], real_name: ", longName,
    ", virtual_size: ", Text.decimal s.virtualSize.toNat,
    ", virtual_address: ", Text.decimal s.virtualAddress.toNat,
    ", size_of_raw_data: ", Text.decimal s.rawSize.toNat,
    ", pointer_to_raw_data: ", Text.decimal s.rawOffset.toNat,
    ", pointer_to_relocations: ", Text.decimal s.relocations,
    ", pointer_to_linenumbers: ", Text.decimal s.lineNumbers,
    ", number_of_relocations: ", Text.decimal s.relocationCount,
    ", number_of_linenumbers: ", Text.decimal s.lineNumberCount,
    ", characteristics: ", Text.decimal s.flags, " \x7d"]

/-- The name that a label refers to, if it does: after a slash it says where the name is in
the table of long names, which starts at `names`. -/
def readLongName (b : Bytes) (names : Nat) (label : List UInt8) :
    Checked ImageError (Option String) := do
  match label with
  | 0x2f :: 0x2f :: _ =>
    let digits ← Required.text label.toArray 2
    let offset ← needed (.name64 digits) (base64? digits.toList)
    return some (← Required.text b (names + offset))
  | 0x2f :: _ =>
    let digits ← Required.text label.toArray 1
    let offset ← needed (.nameDecimal digits) (Text.readUnsigned? 10 UInt64.size digits.toList)
    return some (← Required.text b (names + offset))
  | _ => return none

/-- Read an entry of the section table. -/
def SectionHeader.read (b : Bytes) (names : Nat) (offset : Nat) :
    Checked ImageError SectionHeader := do
  let label := (← Required.slice b offset 8).toList
  let [virtualSize, virtualAddress, rawSize, rawOffset, relocations, lineNumbers,
      relocationCount, lineNumberCount, flags] ←
    Required.record .little b (offset + 8) [4, 4, 4, 4, 4, 4, 2, 2, 4] | Required.incomplete
  return { label, longName := ← readLongName b names label, virtualSize := .ofNat virtualSize
           virtualAddress := .ofNat virtualAddress, rawSize := .ofNat rawSize
           rawOffset := .ofNat rawOffset, relocations, lineNumbers, relocationCount
           lineNumberCount, flags }

/-- What the file header says, which object files start with as well. -/
structure FileHeader where
  machine : Nat
  sectionCount : Nat
  symbols : Nat
  symbolCount : Nat
  optionalSize : Nat
  deriving DecidableEq, Repr, Inhabited

/-- Read the file header. -/
def FileHeader.read (b : Bytes) (offset : Nat) : Checked ImageError FileHeader := do
  let [machine, sectionCount, _, symbols, symbolCount, optionalSize, _] ←
    Required.record .little b offset [2, 2, 4, 4, 4, 2, 2] | Required.incomplete
  return { machine, sectionCount, symbols, symbolCount, optionalSize }

/-- Read so many entries of a section table; there cannot be more than fit into the file. -/
def readSectionTable (b : Bytes) (names offset count : Nat) :
    Checked ImageError (List SectionHeader) := do
  need (count ≤ b.size / 40) (.tooShort count "sections")
  Required.records (SectionHeader.read b names) 40 offset count

namespace FileHeader

/-- The size of the symbol table. -/
def symbolsSize (h : FileHeader) : Nat := 18 * h.symbolCount

/-- Where the table of long names starts: behind the symbols. -/
def names (h : FileHeader) : Nat := h.symbols + h.symbolsSize

/-- Read the section table at an offset. -/
def readSections (h : FileHeader) (b : Bytes) (offset : Nat) :
    Checked ImageError (List SectionHeader) :=
  readSectionTable b h.names offset h.sectionCount

end FileHeader

/-- Read a directory; one of zeros is not given. -/
def readDirectory (b : Bytes) (offset : Nat) : Checked ImageError (Option Directory) := do
  let [address, size] ← Required.record .little b offset [4, 4] | Required.incomplete
  return if address = 0 ∧ size = 0 then none
    else some { address := .ofNat address, size := .ofNat size }

/-- The widths of the fixed part of the optional header behind its first number. -/
def optionalWidths (wide : Bool) : List Nat :=
  let w := if wide then 8 else 4
  [1, 1, 4, 4, 4, 4, 4] ++ (if wide then [] else [4]) ++
    [w, 4, 4, 2, 2, 2, 2, 2, 2, 4, 4, 4, 4, 2, 2, w, w, w, w, 4, 4]

/-- Read the optional header. -/
def OptionalHeader.read (b : Bytes) (offset : Nat) : Checked ImageError OptionalHeader := do
  let magic ← Required.nat .little b offset 2
  need (magic = 0x20b || magic = 0x10b) (.badMagic magic)
  let wide := magic = 0x20b
  let numbers ← Required.record .little b (offset + 2) (optionalWidths wide)
  let number (index : Nat) : Nat := numbers.getD (if wide then index else index + 1) 0
  let count := number 27
  need (count ≤ 16) (.directoryCount count)
  let directories ←
    Required.records (readDirectory b) 8 (offset + if wide then 112 else 96) count
  return { wide, entry := numbers.getD 5 0, imageBase := .ofNat (number 7), fileAlign := number 9
           directories }

/-- A number rounded up to a multiple of the page size. -/
def toPage (n : Nat) : Nat := (n + 0xfff) / 0x1000 * 0x1000

/-- Where the data of a section starts in the file: at a multiple of 512. -/
def SectionHeader.start (s : SectionHeader) : Nat := s.rawOffset.toNat / 512 * 512

/-- How many bytes of a section are read from a file with the given alignment. -/
def SectionHeader.readSize (s : SectionHeader) (fileAlign : Nat) : Nat :=
  let raw := s.rawSize.toNat
  let limit := (s.rawOffset.toNat + raw + fileAlign - 1) / fileAlign * fileAlign
  let read := min (limit - s.start) (toPage raw)
  if s.virtualSize = 0 then read else min read (toPage s.virtualSize.toNat)

/-- Whether the number is a power of two. -/
def isPowerOfTwo (n : Nat) : Bool := n ≠ 0 && n &&& (n - 1) = 0

/-- The offset in the file of a relative address.  A traced look-up reports the range of
each section that it tries, which has to end inside the 32-bit addresses. -/
def fileOffset {ε : Type} (traced : Bool) (fileAlign address : Nat) :
    List SectionHeader → Checked ε (Option Nat)
  | [] => .ok none
  | s :: rest => do
    if traced then
      let _ ← checkedAdd32 s.virtualAddress s.virtualSize
    if s.virtualAddress.toNat ≤ address
        && address < s.virtualAddress.toNat + s.readSize fileAlign then
      return some (address - s.virtualAddress.toNat + s.start)
    else fileOffset traced fileAlign address rest

end FlowRecovery.Pe
