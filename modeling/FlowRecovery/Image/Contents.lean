/-
The contents of sections: how they are cut out of a file, looked up and patched.
-/
import FlowRecovery.Image

namespace FlowRecovery

/-- The part of a file that a section is filled with. -/
def fileSlice (b : Bytes) (offset size : Word) : Except ImageError Bytes :=
  match Binary.slice? b offset.toNat size.toNat with
  | some data => .ok data
  | none => .error (.pastEnd offset size)

/-- The value of the given width stored at an address, if the file has it. -/
def storedValue? (sections : List Section) (a : Addr) (width : Nat) : Option Word := do
  let s ← sections.find? (·.contains a)
  let data ← s.data
  Binary.word? data (a - s.address).toNat width

/-- Write a value at an address of the section, if the file has contents there. -/
def Section.patch (s : Section) (a : Addr) (value : Word) (width : Nat) : Section :=
  match s.data with
  | none => s
  | some data =>
    let start := (a - s.address).toNat
    if start + width ≤ data.size then
      { s with data := some (Binary.write data start (Binary.littleEndian value width)) }
    else s

/-- Write a value at an address, in the first section that covers it. -/
def patchSections (a : Addr) (value : Word) (width : Nat) : List Section → List Section
  | [] => []
  | s :: rest =>
    if s.contains a then s.patch a value width :: rest else s :: patchSections a value width rest

end FlowRecovery
