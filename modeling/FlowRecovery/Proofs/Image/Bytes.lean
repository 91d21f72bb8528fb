/-
Numbers inside a run of bytes.

* `ofLittleEndian_littleEndian` — the bytes of a word give back the word, as far as they reach;
* `nat?_eq_some`, `word?_eq_some` — a number is read where the bytes reach far enough, and is
  the number of the bytes there;
* `getElem?_write_outside`, `getElem?_write_inside` — writing bytes changes these and no others;
* `storedValue?_eq_some` — the value at an address is the number of the bytes that the file has
  there (`Stores`).
-/
import FlowRecovery.Image.Contents
import Mathlib.Algebra.Group.Nat.Defs

namespace FlowRecovery

namespace Binary

/-! ### Bytes and numbers -/

@[simp] theorem length_littleEndian (value : Word) (width : Nat) :
    (littleEndian value width).length = width := by
  induction width generalizing value with
  | zero => rfl
  | succ width ih => rw [littleEndian, List.length_cons, ih]

theorem ofLittleEndian_lt (bs : List UInt8) : ofLittleEndian bs < 256 ^ bs.length := by
  induction bs with
  | nil => simp [ofLittleEndian]
  | cons x xs ih =>
    have hx : x.toNat < 256 := x.toNat_lt
    rw [ofLittleEndian, List.length_cons, Nat.pow_succ]
    omega

/-- The bytes of a word give back the word, as far as they reach. -/
theorem ofLittleEndian_littleEndian (value : Word) (width : Nat) :
    ofLittleEndian (littleEndian value width) = value.toNat % 256 ^ width := by
  induction width generalizing value with
  | zero => simp [littleEndian, ofLittleEndian, Nat.mod_one]
  | succ width ih =>
    have hshift : (value >>> 8).toNat = value.toNat / 256 := by
      rw [UInt64.toNat_shiftRight, Nat.shiftRight_eq_div_pow]
      rfl
    have hbyte : value.toUInt8.toNat = value.toNat % 256 := UInt64.toNat_toUInt8 value
    rw [littleEndian, ofLittleEndian, ih, hshift, hbyte, Nat.pow_succ', Nat.mod_mul]

/-! ### Reading -/

theorem toList_extract (b : Bytes) (offset length : Nat) :
    (b.extract offset (offset + length)).toList = (b.toList.drop offset).take length := by
  rw [Array.toList_extract, List.extract_eq_take_drop, Nat.add_sub_cancel_left]

/-- A number is read where the bytes reach far enough. -/
theorem nat?_eq_some {b : Bytes} {offset width n : Nat} :
    nat? .little b offset width = some n ↔
      offset + width ≤ b.size ∧ ofLittleEndian ((b.toList.drop offset).take width) = n := by
  rw [nat?, slice?]
  by_cases h : offset + width ≤ b.size
  · rw [if_pos h, Option.map_some, Option.some_inj, number, toList_extract]
    exact (and_iff_right h).symm
  · rw [if_neg h]
    constructor
    · intro hn
      cases hn
    · rintro ⟨hle, -⟩
      exact absurd hle h

theorem word?_eq_some {b : Bytes} {offset width : Nat} {w : Word} (hwidth : width ≤ 8) :
    word? b offset width = some w ↔
      offset + width ≤ b.size ∧
        ofLittleEndian ((b.toList.drop offset).take width) = w.toNat := by
  -- Up to eight bytes make a word, so nothing is lost between the number and the word.
  have hsmall : ofLittleEndian ((b.toList.drop offset).take width) < UInt64.size := by
    calc ofLittleEndian ((b.toList.drop offset).take width)
        < 256 ^ ((b.toList.drop offset).take width).length := ofLittleEndian_lt _
      _ ≤ 256 ^ 8 := Nat.pow_le_pow_right (by decide) (by simp only [List.length_take]; omega)
      _ = UInt64.size := by decide
  rw [word?, Option.map_eq_some_iff]
  constructor
  · rintro ⟨n, hn, rfl⟩
    obtain ⟨hle, rfl⟩ := nat?_eq_some.mp hn
    exact ⟨hle, (UInt64.toNat_ofNat_of_lt' hsmall).symm⟩
  · rintro ⟨hle, hw⟩
    refine ⟨w.toNat, nat?_eq_some.mpr ⟨hle, hw⟩, UInt64.ofNat_toNat⟩

theorem drop_of_drop_append {b : Bytes} {offset : Nat} {bs rest : List UInt8}
    (h : b.toList.drop offset = bs ++ rest) : b.toList.drop (offset + bs.length) = rest := by
  rw [← List.drop_drop, h, List.drop_left]

theorem drop_of_slice? {b : Bytes} {offset length : Nat} {bs : List UInt8}
    (h : slice? b offset length = some bs.toArray) :
    ∃ rest, b.toList.drop offset = bs ++ rest ∧ bs.length = length := by
  rw [slice?] at h
  split at h
  · next hle =>
    have hbs : (b.toList.drop offset).take length = bs := by
      rw [← toList_extract, Option.some.inj h]
    refine ⟨(b.toList.drop offset).drop length, ?_, ?_⟩
    · rw [← hbs, List.take_append_drop]
    · rw [← hbs, List.length_take, List.length_drop, Array.length_toList]
      omega
  · cases h

/-- Where the bytes of a word stand, the word is read, as far as the bytes reach. -/
theorem nat?_of_drop {b : Bytes} {offset width : Nat} {value : Word} {rest : List UInt8}
    (hwidth : 0 < width) (h : b.toList.drop offset = littleEndian value width ++ rest) :
    nat? .little b offset width = some (value.toNat % 256 ^ width) := by
  have hlength := congrArg List.length h
  rw [List.length_drop, List.length_append, length_littleEndian, Array.length_toList] at hlength
  refine nat?_eq_some.mpr ⟨by omega, ?_⟩
  rw [h, List.take_left' (length_littleEndian value width), ofLittleEndian_littleEndian]

/-! ### Writing -/

@[simp] theorem size_write (b : Bytes) (offset : Nat) (xs : List UInt8) :
    (write b offset xs).size = b.size := by
  induction xs generalizing b offset with
  | nil => rfl
  | cons x xs ih => rw [write, ih, Array.size_setIfInBounds]

/-- The bytes before and behind those that are written stay. -/
theorem getElem?_write_outside (b : Bytes) (offset : Nat) (xs : List UInt8) {i : Nat}
    (h : i < offset ∨ offset + xs.length ≤ i) : (write b offset xs)[i]? = b[i]? := by
  induction xs generalizing b offset with
  | nil => rfl
  | cons x xs ih =>
    rw [List.length_cons] at h
    rw [write, ih (b.setIfInBounds offset x) (offset + 1) (by omega),
      Array.getElem?_setIfInBounds_ne (by omega)]

/-- What is written is there. -/
theorem getElem?_write_inside (b : Bytes) (offset : Nat) (xs : List UInt8) {i : Nat}
    (hi : i < xs.length) (hb : offset + i < b.size) :
    (write b offset xs)[offset + i]? = xs[i]? := by
  induction xs generalizing b offset i with
  | nil => exact absurd hi (Nat.not_lt_zero i)
  | cons x xs ih =>
    cases i with
    | zero =>
      -- The later bytes are written behind the first one.
      rw [Nat.add_zero] at hb
      rw [Nat.add_zero, write, getElem?_write_outside _ _ _ (Or.inl (Nat.lt_succ_self offset)),
        Array.getElem?_setIfInBounds_self_of_lt hb, List.getElem?_cons_zero]
    | succ i =>
      rw [List.length_cons] at hi
      have hoffset : offset + (i + 1) = offset + 1 + i := by omega
      rw [write, hoffset, List.getElem?_cons_succ]
      refine ih (b.setIfInBounds offset x) (offset + 1) (by omega) ?_
      rw [Array.size_setIfInBounds]
      omega

end Binary

/-! ### Values stored in sections -/

/-- The first section that covers the address has, in the part that the file has, the bytes of
the value there. -/
def Stores (sections : List Section) (a : Addr) (width : Nat) (value : Word) : Prop :=
  ∃ s data, sections.find? (·.contains a) = some s ∧ s.data = some data ∧
    (a - s.address).toNat + width ≤ data.size ∧
    Binary.ofLittleEndian ((data.toList.drop (a - s.address).toNat).take width) = value.toNat

theorem storedValue?_eq_some {sections : List Section} {a : Addr} {width : Nat} {value : Word}
    (hwidth : width ≤ 8) :
    storedValue? sections a width = some value ↔ Stores sections a width value := by
  simp only [storedValue?, Stores, Option.bind_eq_bind, Option.bind_eq_some_iff,
    Binary.word?_eq_some hwidth]
  constructor
  · rintro ⟨s, hs, data, hdata, hvalue⟩
    exact ⟨s, data, hs, hdata, hvalue⟩
  · rintro ⟨s, data, hs, hdata, hvalue⟩
    exact ⟨s, hs, data, hdata, hvalue⟩

end FlowRecovery
