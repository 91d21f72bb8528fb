/-
Numbers and texts inside a run of bytes.

Everything is read at an offset and fails if it would reach behind the end.
-/
import FlowRecovery.Word

namespace FlowRecovery.Binary

/-- The order of the bytes of a number. -/
inductive Endian where
  | little
  | big
  deriving DecidableEq, Repr, Inhabited

/-- The bytes from an offset on. -/
def slice? (b : Bytes) (offset length : Nat) : Option Bytes :=
  if offset + length ≤ b.size then some (b.extract offset (offset + length)) else none

/-- The number whose little-endian bytes are given. -/
def ofLittleEndian : List UInt8 → Nat
  | [] => 0
  | b :: bs => b.toNat + 256 * ofLittleEndian bs

/-- The number whose bytes are given. -/
def number (e : Endian) (bs : List UInt8) : Nat :=
  match e with
  | .little => ofLittleEndian bs
  | .big => ofLittleEndian bs.reverse

/-- The number of the given width at an offset. -/
def nat? (e : Endian) (b : Bytes) (offset width : Nat) : Option Nat :=
  (slice? b offset width).map fun s => number e s.toList

/-- The little-endian word of the given width at an offset. -/
def word? (b : Bytes) (offset width : Nat) : Option Word :=
  (nat? .little b offset width).map UInt64.ofNat

/-- Numbers of the given widths, one behind the other. -/
def record? (e : Endian) (b : Bytes) (offset : Nat) : List Nat → Option (List Nat)
  | [] => some []
  | width :: widths => do
    let n ← nat? e b offset width
    let rest ← record? e b (offset + width) widths
    return n :: rest

/-- So many records of one size, one behind the other. -/
def records? {α : Type} (read : Nat → Option α) (size : Nat) (offset : Nat) : Nat → Option (List α)
  | 0 => some []
  | count + 1 => do
    let first ← read offset
    let rest ← records? read size (offset + size) count
    return first :: rest

/-- The text that the bytes encode. -/
def text? (bs : List UInt8) : Option String := String.fromUTF8? ⟨bs.toArray⟩

/-- The text at an offset up to the next zero or the end; the text at the end is empty. -/
def textAt? (b : Bytes) (offset : Nat) : Option String :=
  if offset ≤ b.size then text? ((b.toList.drop offset).takeWhile (· ≠ 0)) else none

/-- So many bytes of a word, the lowest first. -/
def littleEndian (value : Word) : Nat → List UInt8
  | 0 => []
  | width + 1 => value.toUInt8 :: littleEndian (value >>> 8) width

/-- Write bytes at an offset, where they fit. -/
def write (b : Bytes) (offset : Nat) : List UInt8 → Bytes
  | [] => b
  | x :: xs => write (b.setIfInBounds offset x) (offset + 1) xs

end FlowRecovery.Binary
