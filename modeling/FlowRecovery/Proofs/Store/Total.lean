/-
What always answers on sound stores.

The limits of blocks are computed with checked words, and so is everything that looks at
them.  On a sound store none of these computations overflows (`Checked.Succeeds`), and
the only thing that an insertion can be refused for is a block that cannot be split where
another one starts.

* `Sound.succeeds_findContaining`, `Sound.succeeds_overlapping`,
  `Sound.succeeds_entries` — look-ups and the inferred entries;
* `Sound.repair_eq_error`, `Sound.insert_eq_error` — how an insertion can fail.
-/
import FlowRecovery.Layout
import FlowRecovery.Proofs.Body.Cut

namespace FlowRecovery

namespace Checked

variable {ε α β : Type}

/-- The computation yields a value. -/
def Succeeds (x : Checked ε α) : Prop := ∃ a, x = .ok a

theorem Succeeds.of_eq {x : Checked ε α} {a : α} (h : x = .ok a) : Succeeds x := ⟨a, h⟩

theorem Succeeds.bind {x : Checked ε α} {f : α → Checked ε β} (hx : Succeeds x)
    (hf : ∀ a, x = .ok a → Succeeds (f a)) : Succeeds (x >>= f) := by
  obtain ⟨a, rfl⟩ := hx
  exact hf a rfl

theorem Succeeds.map {x : Checked ε α} (f : α → β) (hx : Succeeds x) : Succeeds (x.map f) := by
  obtain ⟨a, rfl⟩ := hx
  exact ⟨f a, rfl⟩

theorem filterAuxM_of_succeeds {f : α → Checked ε Bool} {l : List α}
    (h : ∀ a ∈ l, Succeeds (f a)) (kept : List α) :
    ∃ r, l.filterAuxM f kept = .ok r ∧ ∀ a ∈ r, a ∈ l ∨ a ∈ kept := by
  induction l generalizing kept with
  | nil => exact ⟨kept, rfl, fun a ha => Or.inr ha⟩
  | cons b l ih =>
    obtain ⟨c, hc⟩ := h b List.mem_cons_self
    obtain ⟨r, hr, hmem⟩ := ih (fun a ha => h a (List.mem_cons_of_mem b ha))
      (cond c (b :: kept) kept)
    refine ⟨r, ?_, fun a ha => ?_⟩
    · rw [List.filterAuxM, hc]
      exact hr
    · rcases hmem a ha with ha | ha
      · exact Or.inl (List.mem_cons_of_mem b ha)
      · cases c with
        | false => exact Or.inr ha
        | true =>
          rcases List.mem_cons.mp ha with rfl | ha
          · exact Or.inl List.mem_cons_self
          · exact Or.inr ha

/-- A filter whose test succeeds everywhere keeps some of the items. -/
theorem filterM_of_succeeds {f : α → Checked ε Bool} {l : List α}
    (h : ∀ a ∈ l, Succeeds (f a)) : ∃ r, l.filterM f = .ok r ∧ ∀ a ∈ r, a ∈ l := by
  obtain ⟨r, hr, hmem⟩ := filterAuxM_of_succeeds h []
  refine ⟨r.reverse, by rw [List.filterM, hr]; rfl, fun a ha => ?_⟩
  exact (hmem a (List.mem_reverse.mp ha)).resolve_right List.not_mem_nil

end Checked

open Checked (Succeeds)

variable {ε : Type}

namespace Block.Sound

variable {b : Block}

theorem succeeds_limit (h : b.Sound) : Succeeds (b.limit : Checked ε Addr) :=
  .of_eq (limit_eq_ok.mpr (toNat_add_of_fits h.fits).symm)

theorem succeeds_contains (h : b.Sound) (a : Addr) : Succeeds (b.contains a : Checked ε Bool) := by
  unfold Block.contains
  split
  · exact ⟨false, rfl⟩
  · exact h.succeeds_limit.map _

theorem succeeds_instructionAt (h : b.Sound) (a : Addr) :
    Succeeds (b.instructionAt a : Checked ε (Option Addr)) := by
  refine (h.succeeds_contains a).bind fun inside _ => ?_
  split
  · exact ⟨_, rfl⟩
  · exact ⟨_, rfl⟩

/-- The boundaries of a block stand in the order of their places. -/
theorem pairwise_values (h : b.Sound) : b.boundaries.values.Pairwise (· < ·) := by
  show (b.body.boundaries.entries.map (·.2)).Pairwise _
  rw [Body.entries_boundaries h.lawful.increasing, List.pairwise_map]
  exact Body.pairwise_markersFrom 0 b.body.insts

theorem succeeds_isImportStub (h : b.Sound) : Succeeds (b.isImportStub : Checked ε Bool) := by
  unfold isImportStub
  split
  · split
    · exact ⟨true, rfl⟩
    · next first second hvalues =>
      have hlt : first < second := by
        have hpair := h.pairwise_values
        rw [hvalues] at hpair
        exact (List.pairwise_cons.mp hpair).1 second List.mem_cons_self
      rw [if_pos (show first + 1 ≤ second from hlt)]
      exact ⟨_, rfl⟩
    · exact ⟨false, rfl⟩
  · exact ⟨false, rfl⟩

theorem succeeds_stubSlot (h : b.Sound) : Succeeds (b.stubSlot : Checked ε (Option Addr)) := by
  refine h.succeeds_isImportStub.bind fun stub _ => ?_
  split
  · split <;> exact ⟨_, rfl⟩
  · exact ⟨_, rfl⟩

end Block.Sound

namespace Store.Sound

variable {s : Store} {b : Block}

theorem sound_of_mem (h : s.Sound) {e : Addr × Block} (he : e ∈ s.blocks.entries) : e.2.Sound :=
  h.blocks e.1 e.2 (AddrMap.mem_entries_iff.mp he)

theorem succeeds_findContaining (h : s.Sound) (a : Addr) :
    Succeeds (s.findContaining a : Checked ε (Option Block)) := by
  unfold findContaining
  split
  · exact ⟨none, rfl⟩
  · next k b hlast =>
    have hb : b.Sound := h.sound_of_mem (List.mem_filter.mp (List.mem_of_getLast? hlast)).1
    exact (hb.succeeds_contains a).map _

theorem sound_of_findContaining (h : s.Sound) {a : Addr}
    (hb : (s.findContaining a : Checked ε _) = .ok (some b)) : b.Sound := by
  unfold findContaining at hb
  split at hb
  · cases hb
  · next k c hlast =>
    have hc : c.Sound := h.sound_of_mem (List.mem_filter.mp (List.mem_of_getLast? hlast)).1
    obtain ⟨inside, hinside⟩ := hc.succeeds_contains a (ε := ε)
    rw [hinside] at hb
    cases inside <;> cases hb
    exact hc

theorem succeeds_overlapping (h : s.Sound) (hb : b.Sound) :
    Succeeds (s.overlapping b : Checked ε (Option (Addr × Block))) := by
  refine hb.succeeds_limit.bind fun limit _ => ?_
  split
  · exact ⟨none, rfl⟩
  · next k old hlast =>
    have hold : old.Sound := h.sound_of_mem (List.mem_filter.mp (List.mem_of_getLast? hlast)).1
    exact hold.succeeds_limit.bind fun oldLimit _ => ⟨_, rfl⟩

theorem succeeds_isEntry (h : s.Sound) (a : Addr) : Succeeds (s.isEntry a : Checked ε Bool) := by
  unfold isEntry
  split
  · exact ⟨false, rfl⟩
  · split
    · next b hb => exact (h.blocks a b hb).succeeds_isImportStub.map _
    · exact ⟨false, rfl⟩

/-- The entries of functions can be inferred, and a block starts at each of them. -/
theorem succeeds_entries (h : s.Sound) :
    ∃ l, (s.entries : Checked ε (List Addr)) = .ok l ∧ ∀ a ∈ l, s.contains a = true := by
  obtain ⟨l, hl, hmem⟩ := Checked.filterM_of_succeeds (l := s.addresses)
    fun a _ => h.succeeds_isEntry a (ε := ε)
  exact ⟨l, hl, fun a ha => AddrMap.mem_keys.mp (hmem a ha)⟩

/-- A round keeps pending blocks sound. -/
theorem pending_of_round {st st' : Store × List Block} (h : st.1.Sound)
    (hp : ∀ b ∈ st.2, b.Sound) (hr : Round st st') : ∀ b ∈ st'.2, b.Sound :=
  fun b hb => (((h.everywhere hp).of_round Block.Sound.splitStable hr).pending b hb).2

/-- A repair of sound blocks fails only where a block cannot be split. -/
theorem repair_eq_error (s : Store) (pending : List Block) : s.Sound → (∀ b ∈ pending, b.Sound) →
    ∀ e, (s.repair pending).2 = .error e → ∃ a at_, e = .refused (.notSplittable a at_) := by
  -- Every round keeps the store and what is pending sound.
  fun_induction Store.repair s pending with
  | case1 s =>
    intro _ _ e he
    cases he
  | case2 s b rest error ho =>
    intro h hp
    obtain ⟨r, hr⟩ := h.succeeds_overlapping (hp b List.mem_cons_self) (ε := BlockError)
    rw [hr] at ho
    cases ho
  | case3 s b rest ho ih =>
    intro h hp
    have hround := @Round.put s b rest ho
    exact ih (h.of_round hp hround) (h.pending_of_round hp hround)
  | case4 s b rest old ho ih =>
    intro h hp
    have hround := @Round.duplicate s b old rest ho
    exact ih (h.of_round hp hround) (h.pending_of_round hp hround)
  | case5 s b rest k old ho hne hlt error hs =>
    intro h hp e he
    cases he
    exact ⟨_, _, ((hp b List.mem_cons_self).split_eq_error hs).1⟩
  | case6 s b rest k old ho hne hlt first second hs ih =>
    intro h hp
    have hround := @Round.splitNew s b old first second k rest ho hlt hs
    exact ih (h.of_round hp hround) (h.pending_of_round hp hround)
  | case7 s b rest k old ho hne hlt error hs =>
    intro h hp e he
    cases he
    exact ⟨_, _, ((h.blocks k old (get?_of_overlapping ho)).split_eq_error hs).1⟩
  | case8 s b rest k old ho hne hlt first second hs ih =>
    intro h hp
    have hround := @Round.splitOld s b old first second k rest ho (by grind) hs
    exact ih (h.of_round hp hround) (h.pending_of_round hp hround)

theorem insert_eq_error (h : s.Sound) (hb : b.Sound) {e : Stop BlockError}
    (he : (s.insert b).2 = .error e) : ∃ a at_, e = .refused (.notSplittable a at_) :=
  repair_eq_error s [b] h (fun _ hc => List.mem_singleton.mp hc ▸ hb) e he

end Store.Sound

end FlowRecovery
