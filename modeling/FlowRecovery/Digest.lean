/-
The SHA-256 digest of a run of bytes.

The bytes are closed with a one bit, zeros and their length in bits, so that
they fill whole blocks of 64 bytes; every block is mixed into a chain of eight
words.
-/
import FlowRecovery.Text.Digits

namespace FlowRecovery.Digest

/-- The words that the rounds add. -/
def roundWords : Array UInt32 := #[
  0x428a2f98, 0x71374491, 0xb5c0fbcf, 0xe9b5dba5, 0x3956c25b, 0x59f111f1, 0x923f82a4, 0xab1c5ed5,
  0xd807aa98, 0x12835b01, 0x243185be, 0x550c7dc3, 0x72be5d74, 0x80deb1fe, 0x9bdc06a7, 0xc19bf174,
  0xe49b69c1, 0xefbe4786, 0x0fc19dc6, 0x240ca1cc, 0x2de92c6f, 0x4a7484aa, 0x5cb0a9dc, 0x76f988da,
  0x983e5152, 0xa831c66d, 0xb00327c8, 0xbf597fc7, 0xc6e00bf3, 0xd5a79147, 0x06ca6351, 0x14292967,
  0x27b70a85, 0x2e1b2138, 0x4d2c6dfc, 0x53380d13, 0x650a7354, 0x766a0abb, 0x81c2c92e, 0x92722c85,
  0xa2bfe8a1, 0xa81a664b, 0xc24b8b70, 0xc76c51a3, 0xd192e819, 0xd6990624, 0xf40e3585, 0x106aa070,
  0x19a4c116, 0x1e376c08, 0x2748774c, 0x34b0bcb5, 0x391c0cb3, 0x4ed8aa4a, 0x5b9cca4f, 0x682e6ff3,
  0x748f82ee, 0x78a5636f, 0x84c87814, 0x8cc70208, 0x90befffa, 0xa4506ceb, 0xbef9a3f7, 0xc67178f2]

/-- The chain of eight words. -/
structure Chain where
  a : UInt32
  b : UInt32
  c : UInt32
  d : UInt32
  e : UInt32
  f : UInt32
  g : UInt32
  h : UInt32
  deriving DecidableEq, Repr

/-- The chain before the first block. -/
def Chain.start : Chain :=
  ⟨0x6a09e667, 0xbb67ae85, 0x3c6ef372, 0xa54ff53a, 0x510e527f, 0x9b05688c, 0x1f83d9ab, 0x5be0cd19⟩

/-- The words of the chain in order. -/
def Chain.words (s : Chain) : List UInt32 := [s.a, s.b, s.c, s.d, s.e, s.f, s.g, s.h]

/-- Rotate a word to the right. -/
def rotate (w : UInt32) (n : UInt32) : UInt32 := (w >>> n) ||| (w <<< (32 - n))

/-- Mix one word of the schedule into the chain. -/
def Chain.round (s : Chain) (k w : UInt32) : Chain :=
  let big := rotate s.e 6 ^^^ rotate s.e 11 ^^^ rotate s.e 25
  let choice := (s.e &&& s.f) ^^^ ((~~~ s.e) &&& s.g)
  let first := s.h + big + choice + k + w
  let spread := rotate s.a 2 ^^^ rotate s.a 13 ^^^ rotate s.a 22
  let majority := (s.a &&& s.b) ^^^ (s.a &&& s.c) ^^^ (s.b &&& s.c)
  ⟨first + (spread + majority), s.a, s.b, s.c, s.d + first, s.e, s.f, s.g⟩

/-- Add two chains word by word. -/
def Chain.add (s t : Chain) : Chain :=
  ⟨s.a + t.a, s.b + t.b, s.c + t.c, s.d + t.d, s.e + t.e, s.f + t.f, s.g + t.g, s.h + t.h⟩

/-- The word at a place of a block. -/
def wordAt (bytes : Bytes) (offset : Nat) : UInt32 :=
  (List.range 4).foldl (fun w i => (w <<< 8) ||| (bytes.getD (offset + i) 0).toUInt32) 0

/-- The sixteen words of a block and the forty-eight that are made of them. -/
def schedule (bytes : Bytes) (offset : Nat) : Array UInt32 :=
  let block := ((List.range 16).map fun i => wordAt bytes (offset + 4 * i)).toArray
  (List.range 48).foldl
    (fun w i =>
      let x := w.getD (i + 1) 0
      let y := w.getD (i + 14) 0
      let low := rotate x 7 ^^^ rotate x 18 ^^^ (x >>> 3)
      let high := rotate y 17 ^^^ rotate y 19 ^^^ (y >>> 10)
      w.push (w.getD i 0 + low + w.getD (i + 9) 0 + high))
    block

/-- Mix the block at a place into the chain. -/
def Chain.block (s : Chain) (bytes : Bytes) (offset : Nat) : Chain :=
  let words := schedule bytes offset
  s.add ((List.range 64).foldl (fun t i => t.round (roundWords.getD i 0) (words.getD i 0)) s)

/-- The bytes of a number, the highest first. -/
def bigEndian (width : Nat) (n : Nat) : List UInt8 :=
  (List.range width).map fun i => UInt8.ofNat (n >>> (8 * (width - 1 - i)))

/-- The bytes, closed so that they fill whole blocks. -/
def padded (bytes : Bytes) : Bytes :=
  let zeros := (119 - bytes.size % 64) % 64
  bytes.push 0x80 ++ (List.replicate zeros (0 : UInt8)).toArray
    ++ (bigEndian 8 (8 * bytes.size)).toArray

/-- The digest as the chain after the last block. -/
def chain (bytes : Bytes) : Chain :=
  let all := padded bytes
  (List.range (all.size / 64)).foldl (fun s i => s.block all (64 * i)) .start

/-- The digest in hexadecimal. -/
def sha256 (bytes : Bytes) : String :=
  Text.hexBytes ((chain bytes).words.flatMap fun w => bigEndian 4 w.toNat).toArray

end FlowRecovery.Digest
