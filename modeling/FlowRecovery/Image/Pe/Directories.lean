/-
The directories of a PE file that are read but not kept.

Relative addresses are looked up in the section table.  Debug information, the
unwinding table and the certificates have to be in order, or the file is refused.
The exports do not matter for that; but a traced look-up may overflow there too.
-/
import FlowRecovery.Image.Pe

namespace FlowRecovery.Pe

/-- How addresses in a file are found, and how wide its pointers are. -/
structure Lookup where
  bytes : Bytes
  sections : List SectionHeader
  fileAlign : Nat
  wide : Bool
  /-- Whether each look-up is reported. -/
  traced : Bool := false

namespace Lookup

variable {ε : Type}

/-- The width of a pointer. -/
def width (l : Lookup) : Nat := if l.wide then 8 else 4

/-- The bit of a pointer that says that it is a number and no address. -/
def ordinalFlag (l : Lookup) : Nat := if l.wide then 0x8000000000000000 else 0x80000000

/-- The offset in the file of a relative address, if there is one. -/
def offset? (l : Lookup) (address : Nat) : Checked ε (Option Nat) :=
  if isPowerOfTwo l.fileAlign then fileOffset l.traced l.fileAlign address l.sections
  else .ok none

/-- The offset in the file of a relative address, or what is wrong without one. -/
def offset (l : Lookup) (address : Nat) (what : Malformation) : Checked ImageError Nat := do
  needed what (← l.offset? address)

end Lookup

/-- An entry of the debug directory. -/
structure DebugEntry where
  flags : Nat
  time : Nat
  major : Nat
  minor : Nat
  type : Nat
  size : Nat
  address : Nat
  offset : Nat
  deriving DecidableEq, Repr, Inhabited

namespace DebugEntry

/-- Read an entry of the debug directory. -/
def read (b : Bytes) (at_ : Nat) : Checked ImageError DebugEntry := do
  let [flags, time, major, minor, type, size, address, offset] ←
    Required.record .little b at_ [4, 4, 2, 2, 4, 4, 4, 4] | Required.incomplete
  return { flags, time, major, minor, type, size, address, offset }

/-- An entry of the debug directory in writing. -/
def written (d : DebugEntry) : String :=
  String.join ["ImageDebugDirectory \x7b characteristics: ", Text.decimal d.flags,
    ", time_date_stamp: ", Text.decimal d.time,
    ", major_version: ", Text.decimal d.major,
    ", minor_version: ", Text.decimal d.minor,
    ", data_type: ", Text.decimal d.type,
    ", size_of_data: ", Text.decimal d.size,
    ", address_of_raw_data: ", Text.decimal d.address,
    ", pointer_to_raw_data: ", Text.decimal d.offset, " \x7d"]

/-- Check that the debug information of an entry can be read at an offset.  Only the kind
that names a database is looked into: a signature, an identifier of 16 bytes, an age and
a file name. -/
def check (d : DebugEntry) (b : Bytes) (offset : Nat) : Checked ImageError Unit := do
  if d.type ≠ 2 then return
  need (24 ≤ d.size) (.debugSize d.size)
  let signature ← Required.nat .little b offset 4
  if signature ≠ 0x53445352 then return
  let _ ← Required.slice b (offset + 4) 16
  let _ ← Required.nat .little b (offset + 20) 4
  need (offset + d.size ≤ b.size) (.debugName d.written)

end DebugEntry

/-- Check the debug directory. -/
def Lookup.checkDebug (l : Lookup) (d : Directory) : Checked ImageError Unit := do
  let address := d.address.toNat
  let entry ← DebugEntry.read l.bytes (← l.offset address (.debugAddress address))
  entry.check l.bytes entry.offset

/-- Check the table of unwinding information: entries of 12 bytes, aligned to 4. -/
def Lookup.checkUnwinding (l : Lookup) (d : Directory) : Checked ImageError Unit := do
  need (d.size.toNat % 12 = 0) (.unwindingSize d.size.toNat)
  let offset ← l.offset d.address.toNat (.unwindingAddress d.address.toNat)
  need (offset % 4 = 0) (.badOffset offset)

/-- The size of the contents of the certificate at an offset. -/
def readCertificate (b : Bytes) (offset : Nat) : Checked ImageError Nat := do
  let [length, revision, type] ← Required.record .little b offset [4, 2, 2] | Required.incomplete
  need (offset + 8 + (length - 8) ≤ b.size) (.certificateSize (length - 8))
  need (revision = 0x100 || revision = 0x200) .certificateRevision
  need (1 ≤ type && type ≤ 4) .certificateType
  return length - 8

/-- Check the certificates one behind the other, each at a multiple of 8. -/
def checkCertificatesFrom (b : Bytes) (limit offset : Nat) : Checked ImageError Unit :=
  if offset < limit then do
    let size ← readCertificate b offset
    checkCertificatesFrom b limit ((offset + 8 + size + 7) / 8 * 8)
  else .ok ()
  termination_by limit - offset
  decreasing_by omega

/-- Check the certificates of a directory, which is given by its offset in the file. -/
def checkCertificates (b : Bytes) (d : Directory) : Checked ImageError Unit := do
  let limit := d.address.toNat + d.size.toNat
  need (limit ≤ b.size) .certificatesEnd
  checkCertificatesFrom b limit d.address.toNat

/-- The numbers of the given width at an offset, as many as are asked for and in the file. -/
def numbersAt (b : Bytes) (width count offset : Nat) : List Nat :=
  (List.range (min count ((b.size - offset) / width))).filterMap fun n =>
    Binary.nat? .little b (offset + n * width) width

/-- Look up what the export directory refers to. -/
def Lookup.traceExports {ε : Type} (l : Lookup) (d : Directory) : Checked ε Unit := do
  let some offset ← l.offset? d.address.toNat | return
  let some [_, _, _, _, name, _, addressCount, nameCount, addresses, names, ordinals] :=
    Binary.record? .little l.bytes offset [4, 4, 2, 2, 4, 4, 4, 4, 4, 4, 4] | return
  if l.bytes.size < nameCount ∨ l.bytes.size < addressCount then return
  let table (width count address : Nat) : Checked ε (List Nat) := do
    return ((← l.offset? address).map (numbersAt l.bytes width count)).getD []
  let names ← table 4 nameCount names
  let ordinals ← table 2 nameCount ordinals
  let addresses ← table 4 addressCount addresses
  let _ ← (l.offset? name : Checked ε _)
  let referred := (names.zip ordinals).filterMap fun p => addresses[p.2]?
  for address in names ++ referred do
    let _ ← (l.offset? address : Checked ε _)

end FlowRecovery.Pe
