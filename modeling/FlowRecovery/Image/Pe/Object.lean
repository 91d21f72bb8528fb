/-
Checking object files and terse executables.

Both start with parts of what a PE file has.  An object file is a file header, a
section table, symbols and the texts that they name.  A terse executable has a
short header of its own; the offsets in it count from where the header that it
replaces would have been.
-/
import FlowRecovery.Image.Pe.Directories
import FlowRecovery.Image.StringTable

namespace FlowRecovery.Pe

/-- Check an object file. -/
def checkObject (b : Bytes) : Checked ImageError Unit := do
  let header ← FileHeader.read b 0
  let _ ← header.readSections b (20 + header.optionalSize)
  if header.symbols ≠ 0 then
    let _ ← Required.slice b header.symbols header.symbolsSize
    let size ← Required.nat .little b header.names 4
    let texts ← checkedSub (.ofNat size) 4
    let _ ← StringTable.read b (header.names + 4) texts.toNat

/-- Check a terse executable. -/
def checkTerse (b : Bytes) : Checked ImageError Unit := do
  let [_, _, sectionCount, _, stripped, _, _, _, _, _, debug, _] ←
    Required.record .little b 0 [2, 2, 1, 1, 2, 4, 4, 8, 4, 4, 4, 4] | Required.incomplete
  let shift ← checkedSub (.ofNat stripped) 40
  let _ ← readSectionTable b 0 40 sectionCount
  let entry ← DebugEntry.read b (UInt32.ofNat debug - shift.toUInt32).toNat
  entry.check b (UInt32.ofNat entry.address - shift.toUInt32).toNat

end FlowRecovery.Pe
