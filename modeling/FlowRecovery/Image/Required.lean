/-
The parts of a file that have to be there.

What is read at an offset behind the end is refused with that offset; what does not
fit is refused with its size and the number of bytes that are left.  Of a record it
is the first number that does not fit which is reported.
-/
import FlowRecovery.Image

namespace FlowRecovery

/-- Refuse a file. -/
def malformed {α : Type} (what : Malformation) : Checked ImageError α :=
  Checked.refuse (.malformed what)

/-- A part of a file, or what is wrong without it. -/
def needed {α : Type} (what : Malformation) : Option α → Checked ImageError α
  | some a => .ok a
  | none => malformed what

/-- A condition that a file has to meet, or what is wrong if it does not. -/
def need (condition : Bool) (what : Malformation) : Checked ImageError Unit :=
  if condition then .ok () else malformed what

namespace Required

open Binary (Endian)

/-- The bytes from an offset on. -/
def slice (b : Bytes) (offset length : Nat) : Checked ImageError Bytes :=
  if b.size < offset then malformed (.badOffset offset)
  else needed (.tooBig length (b.size - offset)) (Binary.slice? b offset length)

/-- The number of the given width at an offset. -/
def nat (e : Endian) (b : Bytes) (offset width : Nat) : Checked ImageError Nat := do
  return Binary.number e (← slice b offset width).toList

/-- Numbers of the given widths, one behind the other. -/
def record (e : Endian) (b : Bytes) (offset : Nat) : List Nat → Checked ImageError (List Nat)
  | [] => .ok []
  | width :: widths => do
    let n ← nat e b offset width
    let rest ← record e b (offset + width) widths
    return n :: rest

/-- The refusal of a record with fewer numbers than widths, which there is none of. -/
def incomplete {α : Type} : Checked ImageError α := malformed (.tooBig 0 0)

/-- So many records of one size, one behind the other. -/
def records {α : Type} (read : Nat → Checked ImageError α) (size offset : Nat) :
    Nat → Checked ImageError (List α)
  | 0 => .ok []
  | count + 1 => do
    let first ← read offset
    let rest ← records read size (offset + size) count
    return first :: rest

/-- The text at an offset up to the next zero or the end. -/
def text (b : Bytes) (offset : Nat) : Checked ImageError String :=
  if b.size < offset then malformed (.badOffset offset)
  else needed (.notText (b.size - offset)) (Binary.textAt? b offset)

/-- The text of the given length at an offset. -/
def textOf (b : Bytes) (offset length : Nat) : Checked ImageError String := do
  needed (.notText (b.size - offset)) (Binary.text? (← slice b offset length).toList)

end Required

end FlowRecovery
