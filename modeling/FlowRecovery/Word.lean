/-
Machine words and the arithmetic that addresses are computed with.

Addresses, sizes and constants of the analysed program are 64-bit words.  A sum
that leaves the word range is never silently reduced unless the operation says
so, hence three families:

* `checkedAdd`, `checkedSub`, `checkedAdd32` stop with `Stop.overflow`;
* `saturatingAdd` stays at the largest word;
* the `+` of `UInt64` wraps, and is used where wrapping is meant.

A computation that can only overflow is polymorphic in the type of refusals, so
it can be used inside any other checked computation without conversion.
-/

namespace FlowRecovery

/-- A 64-bit machine word. -/
abbrev Word := UInt64

/-- An address of the analysed program. -/
abbrev Addr := UInt64

/-- A run of bytes. -/
abbrev Bytes := Array UInt8

/-- Why a computation stops short: a word left its range, or the computation
refused its input for a reason of type `ε`. -/
inductive Stop (ε : Type) where
  | overflow
  | refused (reason : ε)
  deriving DecidableEq, Repr

/-- Change the reason of a refusal; an overflow stays an overflow. -/
def Stop.map {ε ε' : Type} (f : ε → ε') : Stop ε → Stop ε'
  | .overflow => .overflow
  | .refused e => .refused (f e)

/-- A computation over words that may overflow or refuse. -/
abbrev Checked (ε α : Type) := Except (Stop ε) α

namespace Checked

variable {ε ε' α : Type}

/-- Refuse for the given reason. -/
def refuse (reason : ε) : Checked ε α := .error (.refused reason)

/-- Seen from a larger computation, every refusal is one of its own. -/
def within (f : ε → ε') (x : Checked ε α) : Checked ε' α := x.mapError (Stop.map f)

/-- A computation that cannot overflow, as a checked one. -/
def lift : Except ε α → Checked ε α
  | .ok a => .ok a
  | .error e => .error (.refused e)

/-- The value, if there is one. -/
def get? : Checked ε α → Option α
  | .ok a => some a
  | .error _ => none

theorem bind_eq_ok {β : Type} {x : Except ε α} {f : α → Except ε β} {b : β} :
    (x >>= f) = .ok b ↔ ∃ a, x = .ok a ∧ f a = .ok b := by
  cases x <;> simp [bind, Except.bind]

theorem map_eq_ok {β : Type} {f : α → β} {x : Except ε α} {b : β} :
    x.map f = .ok b ↔ ∃ a, x = .ok a ∧ f a = b := by
  cases x <;> simp [Except.map]

theorem lift_eq_ok {x : Except ε α} {a : α} : lift x = .ok a ↔ x = .ok a := by
  cases x <;> simp [lift]

theorem refuse_ne_ok {e : ε} {a : α} : (refuse e : Checked ε α) ≠ .ok a := nofun

theorem mapError_eq_ok {f : ε → ε'} {x : Except ε α} {a : α} :
    x.mapError f = .ok a ↔ x = .ok a := by
  cases x with
  | ok b =>
    show (Except.ok b : Except ε' α) = .ok a ↔ _
    rw [Except.ok.injEq, Except.ok.injEq]
  | error e => exact ⟨nofun, nofun⟩

end Checked

variable {ε : Type}

/-- The largest word. -/
def maxWord : Word := 0xffffffffffffffff

/-- Whether `a + b` is a word. -/
abbrev Fits (a b : Word) : Prop := a.toNat + b.toNat < 0x10000000000000000

/-- The sum of two words, or overflow. -/
def checkedAdd (a b : Word) : Checked ε Word :=
  if Fits a b then .ok (a + b) else .error .overflow

/-- The difference of two words, or overflow when it would be negative. -/
def checkedSub (a b : Word) : Checked ε Word :=
  if b ≤ a then .ok (a - b) else .error .overflow

/-- The sum of two 32-bit words, or overflow. -/
def checkedAdd32 (a b : UInt32) : Checked ε UInt32 :=
  if a.toNat + b.toNat < 0x100000000 then .ok (a + b) else .error .overflow

/-- The sum of two words, or the largest word when the sum is larger. -/
def saturatingAdd (a b : Word) : Word :=
  if Fits a b then a + b else maxWord

theorem toNat_add_of_fits {a b : Word} (h : Fits a b) : (a + b).toNat = a.toNat + b.toNat := by
  rw [UInt64.toNat_add]
  exact Nat.mod_eq_of_lt h

theorem checkedAdd_eq_ok {a b c : Word} :
    (checkedAdd a b : Checked ε Word) = .ok c ↔ a.toNat + b.toNat = c.toNat := by
  unfold checkedAdd Fits
  have hc := c.toNat_lt
  constructor
  · intro h
    split at h
    · next hf =>
      rw [Except.ok.injEq] at h
      subst h
      exact (toNat_add_of_fits hf).symm
    · cases h
  · intro h
    rw [if_pos (by omega)]
    congr 1
    rw [← UInt64.toNat_inj, UInt64.toNat_add, h, Nat.mod_eq_of_lt hc]

theorem checkedSub_eq_ok {a b c : Word} :
    (checkedSub a b : Checked ε Word) = .ok c ↔ a.toNat = b.toNat + c.toNat := by
  unfold checkedSub
  have ha := a.toNat_lt
  constructor
  · intro h
    split at h
    · next hle =>
      rw [Except.ok.injEq] at h
      subst h
      rw [UInt64.toNat_sub_of_le _ _ hle]
      have := UInt64.le_iff_toNat_le.mp hle
      omega
    · cases h
  · intro h
    have hle : b ≤ a := UInt64.le_iff_toNat_le.mpr (by omega)
    rw [if_pos hle]
    congr 1
    rw [← UInt64.toNat_inj, UInt64.toNat_sub_of_le _ _ hle]
    omega

theorem checkedAdd32_eq_ok {a b c : UInt32} :
    (checkedAdd32 a b : Checked ε UInt32) = .ok c ↔ a.toNat + b.toNat = c.toNat := by
  unfold checkedAdd32
  have hc := c.toNat_lt
  constructor
  · intro h
    split at h
    · next hf =>
      rw [Except.ok.injEq] at h
      subst h
      rw [UInt32.toNat_add, Nat.mod_eq_of_lt hf]
    · cases h
  · intro h
    rw [if_pos (by omega)]
    congr 1
    rw [← UInt32.toNat_inj, UInt32.toNat_add, h, Nat.mod_eq_of_lt hc]

theorem toNat_saturatingAdd (a b : Word) :
    (saturatingAdd a b).toNat = min (a.toNat + b.toNat) 0xffffffffffffffff := by
  unfold saturatingAdd Fits
  split
  · next h =>
    rw [toNat_add_of_fits h]
    omega
  · next h =>
    have : maxWord.toNat = 0xffffffffffffffff := rfl
    omega

end FlowRecovery
