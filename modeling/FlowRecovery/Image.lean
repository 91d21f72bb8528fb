/-
Images: the sections, imports and relocations of a loaded program.

A section covers the addresses from its own up to `Section.limit`, which stays at
the largest word if it would lie behind it.  Reads never span sections.  A section
may be larger in memory than its data; the rest is zeros.
-/
import FlowRecovery.AddrMap
import FlowRecovery.Binary
import FlowRecovery.Image.Malformation
import FlowRecovery.Operand
import FlowRecovery.Text.Digits

namespace FlowRecovery

/-- The processor architecture. -/
inductive Arch where
  | x86
  | x86_64
  deriving DecidableEq, Repr, Inhabited

namespace Arch

/-- The bytes of a pointer. -/
def pointerSize : Arch → Nat
  | .x86 => 4
  | .x86_64 => 8

/-- The name of an architecture. -/
def name : Arch → String
  | .x86 => "x86"
  | .x86_64 => "x86_64"

end Arch

/-- The file format that an image was loaded from. -/
inductive ImageFormat where
  | elf
  | pe
  | raw
  deriving DecidableEq, Repr, Inhabited

/-- The name of a format. -/
def ImageFormat.name : ImageFormat → String
  | .elf => "elf"
  | .pe => "pe"
  | .raw => "raw"

/-- Why an image could not be read or loaded. -/
inductive ImageError where
  | outOfRange (address : Addr) (length : Nat)
  | io (path reason : String)
  /-- The file is not what its format asks for. -/
  | malformed (what : Malformation)
  | pastEnd (offset size : Word)
  | unsupportedFormat (what : String)
  | unsupportedArch (what : String)
  deriving DecidableEq, Repr

/-- The text of an image error. -/
def ImageError.message : ImageError → String
  | .outOfRange address length =>
    "address range " ++ Text.addr address ++ "+0x" ++ String.ofList (Nat.toDigits 16 length)
      ++ " is not mapped"
  | .io path reason => "failed to read binary at " ++ path ++ ": " ++ reason
  | .malformed what => "failed to parse binary: " ++ what.message
  | .pastEnd offset size =>
    "failed to parse binary: section data " ++ Text.addr offset ++ "+" ++ Text.addr size
      ++ " runs past end of file"
  | .unsupportedFormat what => "unsupported binary format: " ++ what
  | .unsupportedArch what => "unsupported architecture: " ++ what

/-- A section that takes part in the memory image. -/
structure Section where
  name : String
  address : Addr
  size : Word
  executable : Bool
  writable : Bool
  /-- The contents in the file; none if the section is all zeros. -/
  data : Option Bytes
  deriving DecidableEq, Repr, Inhabited

namespace Section

/-- The first address behind the section. -/
def limit (s : Section) : Addr := saturatingAdd s.address s.size

/-- Whether the section covers the address. -/
def contains (s : Section) (a : Addr) : Bool := s.address ≤ a && a < s.limit

/-- The byte at an offset into the section. -/
def byteAt (s : Section) (offset : Nat) : UInt8 :=
  match s.data with
  | some bytes => bytes.getD offset 0
  | none => 0

/-- The bytes of the section from an offset on. -/
def bytesFrom (s : Section) (offset length : Nat) : Bytes :=
  Array.ofFn (n := length) fun n => s.byteAt (offset + n.val)

end Section

/-- A symbol that another library provides. -/
structure Import where
  name : String
  library : Option String
  deriving DecidableEq, Repr, Inhabited

/-- An absolute relocation: the pointer stored at `site` is the target and the addend. -/
structure Relocation where
  site : Addr
  target : Addr
  size : UInt8
  addend : Int64
  deriving DecidableEq, Repr, Inhabited

/-- The value that the site holds once the program is loaded. -/
def Relocation.value (r : Relocation) : Word := r.target + r.addend.toUInt64

/-- A loaded program. -/
structure Image where
  arch : Arch
  format : ImageFormat := .raw
  entry : Option Addr := none
  sections : List Section := []
  imports : AddrMap Import := ∅
  relocations : List Relocation := []
  deriving DecidableEq, Repr, Inhabited

namespace Image

/-- The first section that covers the address. -/
def sectionAt? (i : Image) (a : Addr) : Option Section := i.sections.find? (·.contains a)

/-- Whether the address lies in an executable section. -/
def isCode (i : Image) (a : Addr) : Bool :=
  match i.sectionAt? a with
  | some s => s.executable
  | none => false

/-- The section to read `length` bytes at an address from, if it has as many. -/
def readable? (i : Image) (a : Addr) (length : Nat) : Option Section :=
  (i.sectionAt? a).filter fun s =>
    min ((a - s.address).toNat + length) 0xffffffffffffffff ≤ s.size.toNat

/-- Read bytes. -/
def read (i : Image) (a : Addr) (length : Nat) : Except ImageError Bytes :=
  match i.readable? a length with
  | some s => .ok (s.bytesFrom (a - s.address).toNat length)
  | none => .error (.outOfRange a length)

/-- Read a pointer. -/
def readPointer (i : Image) (a : Addr) : Except ImageError Word :=
  (i.read a i.arch.pointerSize).map fun bytes => UInt64.ofNat (Binary.ofLittleEndian bytes.toList)

/-- How calls into other libraries pass their arguments. -/
def convention (i : Image) : Convention :=
  match i.arch, i.format with
  | .x86, _ => .cdecl
  | .x86_64, .pe => .ms64
  | .x86_64, _ => .sysv64

/-- The image with another architecture than its headers say. -/
def withArch (i : Image) (arch : Arch) : Image := { i with arch }

/-- Sections and relocations in the order of their addresses; those at one address
stay in the order in which they were given. -/
def sorted (i : Image) : Image :=
  { i with
    sections := i.sections.mergeSort fun s t => s.address ≤ t.address
    relocations := i.relocations.mergeSort fun r s => r.site ≤ s.site }

/-- Add a section. -/
def addSection (i : Image) (s : Section) : Image := { i with sections := i.sections ++ [s] }

/-- Add an executable section; the first is called `.text` and the others are numbered. -/
def addCode (i : Image) (address : Addr) (data : Bytes) : Image :=
  let name := match i.sections.countP (·.executable) with
    | 0 => ".text"
    | n => ".text" ++ Text.decimal n
  i.addSection { name, address, size := UInt64.ofNat data.size, executable := true
                 writable := false, data := some data }

/-- Add a data section. -/
def addData (i : Image) (name : String) (address : Addr) (data : Bytes) : Image :=
  i.addSection { name, address, size := UInt64.ofNat data.size, executable := false
                 writable := true, data := some data }

/-- Add a data section of zeros. -/
def addZeros (i : Image) (name : String) (address : Addr) (size : Word) : Image :=
  i.addSection { name, address, size, executable := false, writable := true, data := none }

/-- Add an import; an earlier one at the same slot gives way. -/
def addImport (i : Image) (slot : Addr) (imp : Import) : Image :=
  { i with imports := i.imports.insert slot imp }

/-- Add a pointer-sized relocation. -/
def addRelocation (i : Image) (site target : Addr) (addend : Int64) : Image :=
  let size := UInt8.ofNat i.arch.pointerSize
  { i with relocations := i.relocations ++ [{ site, target, size, addend }] }

end Image

end FlowRecovery
