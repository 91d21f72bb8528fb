/-
What a refused insertion leaves behind.

An insertion works from the last start inside the block downwards, and one that is refused
keeps what it has done so far.  Up to there the block had a boundary at each start, so the
stored blocks have given way; the halves that were to take their places were still
pending, and are lost.

* `Course.forfeits` — the store after a refused insertion, in closed form (`Forfeits`);
* `Built.insert_refused` — so it is the store before just if the last start inside the
  block is no boundary of it;
* `insert_refused_forfeits` — and a stored block can be lost.
-/
import FlowRecovery.Proofs.Lists
import FlowRecovery.Proofs.Store.Insertion

namespace FlowRecovery

namespace Store

variable {s s' : Store} {b first second : Block} {a : Addr} {l : List Addr}

/-- The starts inside the block that give way before it is refused: the last ones, as far
down as they are boundaries of the block. -/
def forfeited (s : Store) (b : Block) : List Addr :=
  (s.between b).rtakeWhile (b.boundaries.contains ·)

/-- The store `s'` is what is left of `s` when the block was refused. -/
structure Forfeits (s : Store) (b : Block) (s' : Store) : Prop where
  get?_eq : ∀ a, s'.get? a = if a ∈ s.forfeited b then none else s.get? a
  splits : s'.splits = s.splits + (s.forfeited b).length
  duplicates : s'.duplicates = s.duplicates

theorem forfeited_eq_nil :
    s.forfeited b = [] ↔ ∀ a ∈ (s.between b).getLast?, b.boundaries.contains a = false := by
  rw [forfeited, List.rtakeWhile_eq_nil_iff]
  constructor
  · intro h a ha
    obtain ⟨hne, rfl⟩ := List.mem_getLast?_eq_getLast ha
    exact Bool.eq_false_iff.mpr (h hne)
  · intro h hne hin
    rw [h _ (List.getLast_mem_getLast? hne)] at hin
    cases hin

/-- The last start gives way first, and then those that lie inside the first half. -/
theorem forfeited_giveWay (hb : b.Sound) (hl : s.between b = l ++ [a])
    (hv : b.Halves a first second) :
    s.forfeited b = (s.giveWay a).forfeited first ++ [a] := by
  have hpair := pairwise_between (s := s) (b := b)
  rw [hl] at hpair
  have hlt : ∀ x ∈ l, x < a := fun x hx =>
    (List.pairwise_append.mp hpair).2.2 x hx a List.mem_cons_self
  -- Below the cut, the first half has the boundaries of the block.
  have hsame : l.rtakeWhile (first.boundaries.contains ·) =
      l.rtakeWhile (b.boundaries.contains ·) := by
    refine rtakeWhile_congr fun x hx => ?_
    exact Bool.eq_iff_iff.mpr (hv.boundary_first hb (hlt x hx))
  rw [forfeited, forfeited, between_giveWay hl hv, hsame, hl,
    List.rtakeWhile_concat_pos _ _ _ hv.inside]

/-- What is left when the first half is refused is left when the block is. -/
theorem Forfeits.of_first (h : (s.giveWay a).Forfeits first s') (hb : b.Sound)
    (hl : s.between b = l ++ [a]) (hv : b.Halves a first second) : s.Forfeits b s' := by
  have hlost := forfeited_giveWay hb hl hv
  refine ⟨?_, ?_, ?_⟩
  · intro x
    rw [h.get?_eq, get?_giveWay, hlost]
    by_cases hx : x ∈ (s.giveWay a).forfeited first
    · simp [hx]
    · by_cases hxa : x = a
      · simp [hxa]
      · simp [hx, hxa]
  · rw [h.splits, hlost, List.length_append, List.length_singleton]
    show s.splits + 1 + _ = _
    omega
  · rw [h.duplicates]
    rfl

theorem Forfeits.refl (h : s.forfeited b = []) : s.Forfeits b s := by
  refine ⟨?_, ?_, rfl⟩
  · intro a
    rw [h, if_neg List.not_mem_nil]
  · rw [h]
    rfl

theorem Course.forfeits {r : Store × Checked BlockError Unit} {err : Stop BlockError}
    (h : Course s b r) (hb : b.Sound) (herr : r.2 = .error err) : s.Forfeits b r.1 := by
  -- Along the course: a block that is refused at once leaves the store as it is.
  induction h with
  | keep => cases herr
  | drop => cases herr
  | divide => cases herr
  | split => cases herr
  | undivided hl he hsplit ht =>
    refine .refl (forfeited_eq_nil.mpr ?_)
    rw [hl]
    nofun
  | @unsplit s b l a _ hl hsplit ht =>
    refine .refl (forfeited_eq_nil.mpr ?_)
    intro x hx
    rw [hl, List.getLast?_concat, Option.mem_some_iff] at hx
    obtain ⟨-, hlow, -⟩ := mem_of_between_eq hl
    have hne : a ≠ b.address := fun heq => Nat.lt_irrefl _ (heq ▸ hlow)
    rw [← hx]
    exact Bool.eq_false_iff.mpr (not_boundary_of_split hb hsplit hne)
  | stuck hl hsplit ht _ ih =>
    have hv := Block.halves_of_split hsplit
    exact (ih (Block.Sound.splitStable hb trivial hv).1 herr).of_first hb hl hv

theorem Forfeits.eq_iff (h : s.Forfeits b s') : s' = s ↔ s.forfeited b = [] := by
  constructor
  · intro heq
    have hsplits := h.splits
    rw [heq] at hsplits
    exact List.eq_nil_of_length_eq_zero (by omega)
  · intro hnil
    have hblocks : s'.blocks = s.blocks := by
      refine AddrMap.ext fun a => ?_
      have hget := h.get?_eq a
      rw [hnil, if_neg List.not_mem_nil] at hget
      exact hget
    have hsplits : s'.splits = s.splits := by rw [h.splits, hnil]; rfl
    have hduplicates := h.duplicates
    obtain ⟨blocks, splits, duplicates⟩ := s'
    obtain rfl : blocks = s.blocks := hblocks
    obtain rfl : splits = s.splits := hsplits
    obtain rfl : duplicates = s.duplicates := hduplicates
    rfl

/-- **What a refused insertion leaves behind, exactly.**  The blocks at the last starts
inside the new block are gone, as far down as the new block has boundaries there, and each
counts as a split; nothing else has changed.  So the store is as it was if and only if
the last start inside the block is no boundary of it, or there is none. -/
theorem Built.insert_refused {u : Lifted} {err : Stop BlockError} (hs : Built s)
    (hb : Block.classify u = .ok b) (herr : (s.insert b).2 = .error err) :
    s.Forfeits b (s.insert b).1 ∧
    ((s.insert b).1 = s ↔ ∀ a ∈ (s.between b).getLast?, b.boundaries.contains a = false) := by
  have hblock : b.Sound := .of_classified (Block.classified_of_classify hb)
  have hforfeits := (hs.sound.course_insert hblock).forfeits hblock herr
  exact ⟨hforfeits, hforfeits.eq_iff.trans forfeited_eq_nil⟩

/-- A block that starts inside the last instruction of a stored one is refused at once. -/
theorem insert_refused_inside :
    ∃ s : Store, Built s ∧ Block.classify (.twoSteps 19) = .ok (.twoSteps 19) ∧
      (s.insert (.twoSteps 19)).2 = .error (.refused (.notSplittable 16 19)) ∧
      (s.insert (.twoSteps 19)).1 = s := by
  have h16 : Block.classify (.twoSteps 16) = .ok (.twoSteps 16) := by decide
  have h19 : Block.classify (.twoSteps 19) = .ok (.twoSteps 19) := by decide
  have hbuilt := Built.empty.insert h16
  have hrefused : ((({} : Store).insert (.twoSteps 16)).1.insert (.twoSteps 19)).2 =
      .error (.refused (.notSplittable 16 19)) := by decide +kernel
  have hbetween : (({} : Store).insert (.twoSteps 16)).1.between (.twoSteps 19) = [] := by
    decide +kernel
  have hsame := (hbuilt.insert_refused h19 hrefused).2.mpr (by
    rw [hbetween]
    intro a ha
    cases ha)
  exact ⟨_, hbuilt, h19, hrefused, hsame⟩

/-- A block that reaches over a start of which it has a boundary, and itself starts inside an
instruction: the block at that start is lost. -/
theorem insert_refused_forfeits :
    ∃ s : Store, Built s ∧ Block.classify (.threeSteps 16) = .ok (.threeSteps 16) ∧
      (s.insert (.threeSteps 16)).2 = .error (.refused (.notSplittable 13 16)) ∧
      s.addresses = [13, 20] ∧ (s.insert (.threeSteps 16)).1.addresses = [13] ∧
      s.splits = 0 ∧ (s.insert (.threeSteps 16)).1.splits = 1 := by
  have h13 : Block.classify (.twoSteps 13) = .ok (.twoSteps 13) := by decide
  have h20 : Block.classify (.twoSteps 20) = .ok (.twoSteps 20) := by decide
  have h16 : Block.classify (.threeSteps 16) = .ok (.threeSteps 16) := by decide
  exact ⟨_, (Built.empty.insert h13).insert h20, h16, by decide +kernel⟩

end Store

end FlowRecovery
