/-
The markers of a body.

* `keys_boundaries` — the instruction boundaries of a body that keeps the contract
  are its markers, in order;
* `markers_marked` — marking a body whose program counters are distinct gives every
  one of them its marker;
* `markTransfer_cases` — what classification does to the raw branch of a marked unit;
* `Classified.markers_eq` — and it marks a unit in no other way.
-/
import FlowRecovery.Block.Classify
import FlowRecovery.Block.Split
import Mathlib.Data.List.Nodup

namespace FlowRecovery

namespace Body

theorem map_markersFrom (n : Nat) (insts : List Inst) :
    (markersFrom n insts).map (·.1) = markers insts := by
  induction insts generalizing n with
  | nil => rfl
  | cons i insts ih =>
    cases i with
    | marker pc => exact congrArg (pc :: ·) (ih (n + 1))
    | _ => exact ih (n + 1)

/-- Markers in the right places increase, from the one before on. -/
theorem pairwise_of_checkShape {address limit : Addr} {last : Option Addr} {insts : List Inst}
    (h : checkShape address limit last insts = .ok ()) :
    (markers insts).Pairwise (· < ·) ∧ ∀ prev ∈ last, ∀ p ∈ markers insts, prev < p := by
  induction insts generalizing last with
  | nil => exact ⟨List.Pairwise.nil, fun _ _ _ hp => nomatch hp⟩
  | cons i insts ih =>
    rcases checkShape_cons h with ⟨pc, hpc, horder, h⟩ | ⟨hnone, h⟩
    · rw [markers, List.filterMap_cons_some hpc]
      obtain ⟨hpair, hbelow⟩ := ih h
      have hpc : ∀ p ∈ markers insts, pc < p := hbelow pc rfl
      refine ⟨List.pairwise_cons.mpr ⟨hpc, hpair⟩, ?_⟩
      rintro prev rfl p hp
      have hprev : prev < pc := by
        simpa [outOfOrder] using horder
      rcases List.mem_cons.mp hp with rfl | hp
      · exact hprev
      · exact UInt64.lt_trans hprev (hpc p hp)
    · rw [markers, List.filterMap_cons_none hnone]
      exact ih h

/-- The boundaries of a body that keeps the contract are its markers. -/
theorem keys_boundaries {b : Body} {address : Addr} {size : Word}
    (h : b.check address size = .ok ()) : b.boundaries.keys = markers b.insts := by
  obtain ⟨-, -, hshape, -⟩ := check_eq_ok.mp h
  refine AddrSet.eq_of_pairwise b.boundaries.keys_pairwise (pairwise_of_checkShape hshape).1 ?_
  intro p
  rw [AddrMap.mem_keys, boundaries, AddrMap.contains_ofList, map_markersFrom]

end Body

/-- The address that the instruction moves the program counter to. -/
def Inst.position? : Inst → Option Addr
  | .setPc pc => some pc
  | _ => none

/-- The program counters that a body moves to, in order. -/
def positions (insts : List Inst) : List Addr := insts.filterMap Inst.position?

@[simp] theorem positions_append (l m : List Inst) :
    positions (l ++ m) = positions l ++ positions m :=
  List.filterMap_append

namespace Lifted

/-- Distinct program counters get a marker each. -/
theorem markers_mark {insts : List Inst} {seen : AddrSet} (hm : markers insts = [])
    (hnd : (positions insts).Nodup) (hs : ∀ p ∈ positions insts, p ∉ seen) :
    markers (mark seen insts) = positions insts := by
  induction insts generalizing seen with
  | nil => rfl
  | cons i insts ih =>
    cases i with
    | setPc pc =>
      have hnd' : pc ∉ positions insts ∧ (positions insts).Nodup := List.nodup_cons.mp hnd
      have hpc : pc ∉ seen := hs pc List.mem_cons_self
      rw [mark, if_neg hpc]
      refine congrArg (pc :: ·) (ih hm hnd'.2 fun p hp => ?_)
      rw [AddrSet.mem_insert, not_or]
      refine ⟨?_, hs p (List.mem_cons_of_mem _ hp)⟩
      rintro rfl
      exact hnd'.1 hp
    | marker pc => cases hm
    | _ => exact ih hm hnd hs

theorem markers_marked {u : Lifted} (hm : markers u.body.insts = [])
    (hnd : (positions u.body.insts).Nodup) :
    markers u.marked.insts = positions u.body.insts :=
  markers_mark hm hnd fun p _ => AddrSet.not_mem_empty p

/-- Marking adds only markers. -/
theorem mem_mark {insts : List Inst} {seen : AddrSet} {i : Inst} (hi : i.marker? = none) :
    i ∈ mark seen insts ↔ i ∈ insts := by
  have hne : ∀ pc, i ≠ .marker pc := by
    rintro pc rfl
    cases hi
  induction insts generalizing seen with
  | nil => rfl
  | cons j insts ih =>
    cases j with
    | setPc pc =>
      rw [mark]
      split
      · simp only [List.mem_cons, ih]
      · simp only [List.mem_cons, ih, hne pc, false_or]
    | _ => simp only [mark, List.mem_cons, ih]

end Lifted

theorem lastIdx?_eq_none {α : Type} {p : α → Bool} {l : List α} (h : lastIdx? p l = none) :
    ∀ a ∈ l, p a = false := by
  induction l with
  | nil => nofun
  | cons a l ih =>
    rw [lastIdx?] at h
    split at h
    · cases h
    · next hl =>
      rw [List.forall_mem_cons]
      refine ⟨Bool.eq_false_iff.mpr fun ha => ?_, ih hl⟩
      rw [if_pos ha] at h
      cases h

/-- The last element that passes a test, with what stands around it. -/
theorem exists_of_lastIdx? {α : Type} {p : α → Bool} {l : List α} {n : Nat}
    (h : lastIdx? p l = some n) : ∃ pre a post, l = pre ++ a :: post ∧ pre.length = n ∧
      p a = true ∧ ∀ b ∈ post, p b = false := by
  induction l generalizing n with
  | nil => cases h
  | cons a l ih =>
    rw [lastIdx?] at h
    split at h
    · next m hm =>
      cases h
      obtain ⟨pre, b, post, rfl, rfl, hb, hpost⟩ := ih hm
      exact ⟨a :: pre, b, post, rfl, rfl, hb, hpost⟩
    · next hl =>
      rw [Option.ite_none_right_eq_some] at h
      obtain ⟨ha, hn⟩ := h
      cases hn
      exact ⟨[], a, l, rfl, rfl, ha, lastIdx?_eq_none hl⟩

theorem lastIdx?_eq_some {α : Type} {p : α → Bool} {l : List α} {n : Nat}
    (h : lastIdx? p l = some n) : ∃ a, l[n]? = some a ∧ p a = true := by
  obtain ⟨pre, a, post, rfl, rfl, ha, -⟩ := exists_of_lastIdx? h
  exact ⟨a, by simp, ha⟩

theorem Inst.eq_branch_of_branch? {i : Inst} {target : Operand} (h : i.branch? = some target) :
    i = .branch target := by
  cases i with
  | branch t => exact congrArg Inst.branch (Option.some.inj h)
  | _ => cases h

namespace Lifted

theorem marker?_transferMarker (kind : BlockKind) (target : Operand) :
    (transferMarker kind target).marker? = none := by
  unfold transferMarker
  split <;> rfl

/-- The last raw branch of a call or return unit gives way to the marker of the transfer, and
other units are left as they are. -/
theorem markTransfer_cases {kind : BlockKind} {b c : Body} (h : markTransfer kind b = some c) :
    (kind.isCall = false ∧ kind ≠ .ret ∧ c = b) ∨
    ((kind.isCall = true ∨ kind = .ret) ∧ ∃ pre target post,
      b.insts = pre ++ .branch target :: post ∧
      c = { b with insts := pre ++ transferMarker kind target :: post } ∧
      ∀ i ∈ post, i.branch? = none) := by
  unfold markTransfer at h
  split at h
  · next hkind =>
    refine Or.inr ⟨by simpa using hkind, ?_⟩
    split at h
    · next n target hn ht =>
      cases h
      obtain ⟨pre, i, post, hinsts, rfl, -, hpost⟩ := exists_of_lastIdx? hn
      have hi : i.branch? = some target := by
        rw [Body.branchTarget?, hn, hinsts] at ht
        simpa using ht
      refine ⟨pre, target, post, ?_, ?_, fun j hj => by simpa using hpost j hj⟩
      · rw [hinsts, Inst.eq_branch_of_branch? hi]
      · simp [hinsts]
    · cases h
  · next hkind =>
    cases h
    exact Or.inl (by simpa using hkind)

theorem markers_markTransfer {kind : BlockKind} {b c : Body}
    (h : markTransfer kind b = some c) : markers c.insts = markers b.insts := by
  rcases markTransfer_cases h with ⟨-, -, rfl⟩ | ⟨-, pre, target, post, hinsts, rfl, -⟩
  · rfl
  · rw [hinsts, markers, markers, List.filterMap_append, List.filterMap_append,
      List.filterMap_cons_none (marker?_transferMarker kind target), List.filterMap_cons_none rfl]

end Lifted

/-- The markers of a block are those of its unit with its markers. -/
theorem Block.Classified.markers_eq {u : Lifted} {b : Block} (h : Block.Classified u b) :
    markers b.body.insts = markers u.marked.insts :=
  Lifted.markers_markTransfer h.body

end FlowRecovery
