/-
Reading a program file of any known format.

The first bytes tell the formats apart.  Only ELF and PE files are loaded; other
formats are checked and then refused by name.
-/
import FlowRecovery.Image.Archive
import FlowRecovery.Image.Elf.Load
import FlowRecovery.Image.Elf.Parse
import FlowRecovery.Image.MachO
import FlowRecovery.Image.Pe.Load
import FlowRecovery.Image.Pe.Object
import FlowRecovery.Image.Pe.Parse

namespace FlowRecovery

/-- The format that the first bytes of a file announce. -/
inductive FileKind where
  | elf
  | pe
  | terse
  | object
  | archive
  | machO (encoding : MachO.Encoding)
  | fatMachO
  | unknown
  deriving DecidableEq, Repr, Inhabited

/-- The first bytes of an archive. -/
def archiveMagic : List UInt8 := "!<arch>\n".toUTF8.toList

/-- The format that the first bytes of a file announce. -/
def FileKind.ofBytes (b : Bytes) : FileKind :=
  let first := b.toList.take 8
  if first == archiveMagic then .archive
  else
    match first with
    | 0x7f :: 0x45 :: 0x4c :: 0x46 :: _ => .elf
    | 0x4d :: 0x5a :: _ => .pe
    | 0x56 :: 0x5a :: _ => .terse
    | 0x4c :: 0x01 :: _ => .object
    | 0x64 :: 0x86 :: _ => .object
    | 0x64 :: 0xaa :: _ => .object
    | 0xfe :: 0xed :: 0xfa :: 0xce :: _ => .machO { wide := false, endian := .big }
    | 0xce :: 0xfa :: 0xed :: 0xfe :: _ => .machO { wide := false, endian := .little }
    | 0xfe :: 0xed :: 0xfa :: 0xcf :: _ => .machO { wide := true, endian := .big }
    | 0xcf :: 0xfa :: 0xed :: 0xfe :: _ => .machO { wide := true, endian := .little }
    | 0xca :: 0xfe :: 0xba :: 0xbe :: _ => .fatMachO
    | _ => .unknown

/-- Load a program file.  Tracing reports the steps, which may overflow where loading
would not. -/
def Image.parse (b : Bytes) (traced : Bool := false) : Checked ImageError Image := do
  need (16 ≤ b.size) .tooSmall
  match FileKind.ofBytes b with
  | .elf => (← Elf.File.read b).load b
  | .pe => (← Pe.File.read traced b).load b
  | .terse =>
    Pe.checkTerse b
    Checked.refuse (.unsupportedFormat "unrecognised object")
  | .object =>
    Pe.checkObject b
    Checked.refuse (.unsupportedFormat "unrecognised object")
  | .archive =>
    Archive.check b
    Checked.refuse (.unsupportedFormat "unrecognised object")
  | .machO encoding =>
    MachO.check encoding b
    Checked.refuse (.unsupportedFormat "mach-o")
  | .fatMachO => Checked.refuse (.unsupportedFormat "mach-o")
  | .unknown => Checked.refuse (.unsupportedFormat "unrecognised object")

end FlowRecovery
