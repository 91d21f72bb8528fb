/-
Whether an address holds a string.

A string is a run of at least so many printable characters with a zero behind it,
as bytes or as little-endian 16-bit units, inside one section.  The bytes are
read in chunks, so that only as much of the section is looked at as decides the
question; `foldChunks` runs a step over the bytes and stops when it answers.
-/
import FlowRecovery.Image

namespace FlowRecovery.Image

/-- The bytes that are read at a time. -/
def chunkLength : Nat := 256

/-- Whether the byte is a printable character or a line break. -/
def printable (b : UInt8) : Bool := (0x20 ≤ b && b < 0x80) || b == 0x0d || b == 0x0a

/-- Run a step over bytes until it answers. -/
def foldBytes {σ : Type} (step : σ → UInt8 → Except Bool σ) (state : σ) :
    List UInt8 → Except Bool σ
  | [] => .ok state
  | b :: bs =>
    match step state b with
    | .error answer => .error answer
    | .ok state => foldBytes step state bs

/-- Run a step over the bytes from `start` up to `limit`, chunk by chunk, until it
answers or a chunk cannot be read. -/
def foldChunks {σ : Type} (i : Image) (limit : Nat) (step : σ → UInt8 → Except Bool σ)
    (start : Nat) (state : σ) : Except Bool σ :=
  if start < limit then
    match i.read (UInt64.ofNat start) (min (limit - start) chunkLength) with
    | .error _ => .ok state
    | .ok chunk =>
      match foldBytes step state chunk.toList with
      | .error answer => .error answer
      | .ok state => foldChunks i limit step (start + chunkLength) state
  else .ok state
  termination_by limit - start
  decreasing_by
    unfold chunkLength
    omega

/-- The first address behind the section at an address, or the address itself. -/
def sectionLimit (i : Image) (a : Addr) : Addr :=
  match i.sectionAt? a with
  | some s => s.limit
  | none => a

/-- Count printable bytes; a zero answers whether there were enough. -/
def narrowStep (minLength count : Nat) (b : UInt8) : Except Bool Nat :=
  if b = 0 then .error (minLength ≤ count)
  else if printable b then .ok (count + 1)
  else .error false

/-- Count printable units of two bytes; the low byte of an unfinished unit is kept. -/
def wideStep (minLength : Nat) (state : Nat × Option UInt8) (b : UInt8) :
    Except Bool (Nat × Option UInt8) :=
  match state with
  | (count, none) => .ok (count, some b)
  | (count, some low) =>
    if b = 0 then
      if low = 0 then .error (minLength ≤ count)
      else if printable low then .ok (count + 1, none)
      else .error false
    else .error false

/-- The answer of a run that may have ended without one. -/
def answered {σ : Type} : Except Bool σ → Bool
  | .error answer => answer
  | .ok _ => false

/-- Whether a string of at least `minLength` characters starts at the address. -/
def looksLikeString (i : Image) (a : Addr) (minLength : Nat) : Bool :=
  let limit := (i.sectionLimit a).toNat
  answered (i.foldChunks limit (narrowStep minLength) a.toNat 0) ||
    answered (i.foldChunks limit (wideStep minLength) a.toNat (0, none))

end FlowRecovery.Image
