/-
What an insertion makes of a store.

* `Course.ok_iff` — an insertion succeeds if every start inside the block is one of its
  boundaries, and its own start is a boundary of the block that it divides (`Fitting`);
* `Course.spliced` — the blocks and the counters after an insertion that succeeds, in
  closed form (`Spliced`);
* `Built.insert_exact` — both, with the number of turns, for stores of classified units.
-/
import FlowRecovery.Proofs.Store.Course

namespace FlowRecovery

namespace Store

variable {s s' : Store} {b e first second : Block} {a : Addr} {l : List Addr}

/-! ### When an insertion succeeds -/

/-- Every start inside the block is a boundary of it, and its own start is one of the block
that it divides. -/
def Fitting (s : Store) (b : Block) : Prop :=
  (∀ a ∈ s.between b, b.boundaries.contains a = true) ∧
    ∀ e, s.Divides b e → e.boundaries.contains b.address = true

theorem fitting_giveWay (hb : b.Sound) (hl : s.between b = l ++ [a])
    (hv : b.Halves a first second) : (s.giveWay a).Fitting first ↔ s.Fitting b := by
  have hpair := pairwise_between (s := s) (b := b)
  rw [hl] at hpair
  have hlt : ∀ x ∈ l, x < a := fun x hx =>
    (List.pairwise_append.mp hpair).2.2 x hx a List.mem_cons_self
  have hinner : (∀ x ∈ l, first.boundaries.contains x = true) ↔
      ∀ x ∈ l ++ [a], b.boundaries.contains x = true := by
    constructor
    · intro h x hx
      rcases List.mem_append.mp hx with hx | hx
      · exact (hv.boundary_first hb (hlt x hx)).mp (h x hx)
      · rw [List.mem_singleton.mp hx]
        exact hv.inside
    · intro h x hx
      exact (hv.boundary_first hb (hlt x hx)).mpr (h x (List.mem_append_left _ hx))
  rw [Fitting, Fitting, between_giveWay hl hv, hl, hinner, hv.address_first]
  simp only [divides_giveWay hl hv]

/-- A sound block that is refused a split has no boundary there. -/
theorem not_boundary_of_split {err : Stop BlockError} (hb : b.Sound) (hs : b.split a = .error err)
    (hne : a ≠ b.address) : ¬ b.boundaries.contains a = true :=
  fun hin => (hb.split_eq_error hs).2 ⟨hin, hne⟩

theorem Course.ok_iff {r : Store × Checked BlockError Unit} (h : Course s b r) (hs : s.Sound)
    (hb : b.Sound) : r.2 = .ok () ↔ s.Fitting b := by
  induction h with
  | keep hl hout hno ht =>
    refine iff_of_true rfl ⟨by simp [hl], fun e he => absurd he (hno e)⟩
  | drop hl hin ht =>
    exact iff_of_true rfl ⟨by simp [hl], fun e he => absurd hin (he.not_contains hs)⟩
  | divide hl he hsplit ht _ _ =>
    refine iff_of_true rfl ⟨by simp [hl], fun e' he' => ?_⟩
    rw [he.unique hs he']
    exact (Block.halves_of_split hsplit).inside
  | @undivided s b e err hl he hsplit ht =>
    refine iff_of_false nofun fun hfit => ?_
    have hne : b.address ≠ e.address := fun heq => UInt64.lt_irrefl _ (heq ▸ he.start_lt)
    exact not_boundary_of_split (hs.blocks _ _ he.stored) hsplit hne (hfit.2 _ he)
  | @unsplit s b l a err hl hsplit ht =>
    refine iff_of_false nofun fun hfit => ?_
    obtain ⟨-, hlow, -⟩ := mem_of_between_eq hl
    have hne : a ≠ b.address := fun heq => Nat.lt_irrefl _ (heq ▸ hlow)
    exact not_boundary_of_split hb hsplit hne (hfit.1 _ (by simp [hl]))
  | split hl hsplit ht _ _ ih =>
    have hv := Block.halves_of_split hsplit
    rw [← fitting_giveWay hb hl hv, ← ih (hs.giveWay _) (Block.Sound.splitStable hb trivial hv).1]
  | stuck hl hsplit ht _ ih =>
    have hv := Block.halves_of_split hsplit
    rw [← fitting_giveWay hb hl hv, ← ih (hs.giveWay _) (Block.Sound.splitStable hb trivial hv).1]

/-! ### What is stored then -/

/-- The store `s'` is `s` with the block spliced into it: -/
structure Spliced (s : Store) (b : Block) (s' : Store) : Prop where
  /-- One start is new at most, that of the block. -/
  starts : s'.starts = s.starts.insert b.address
  /-- From each start inside it, the block is cut up to the next one. -/
  inner : ∀ a ∈ s.between b, s'.get? a = b.slice? a ((s.between b).find? (a < ·))
  /-- A block with the same start stays. -/
  same : ∀ old, s.get? b.address = some old → s'.get? b.address = some old
  /-- A block that it starts in is cut at its start. -/
  divided : ∀ e, s.Divides b e → s'.get? e.address = e.slice? e.address (some b.address) ∧
    s'.get? b.address = e.slice? b.address none
  /-- If it starts in none, the block is kept up to the first start inside it. -/
  outside : (∀ k c, s.get? k = some c → b.address.toNat ∉ c.span) →
    s'.get? b.address = b.slice? b.address (s.between b).head?
  elsewhere : ∀ a, a ≠ b.address → a ∉ s.between b → (∀ e, s.Divides b e → a ≠ e.address) →
    s'.get? a = s.get? a
  splits_divided : (∃ e, s.Divides b e) → s'.splits = s.splits + (s.between b).length + 1
  splits : (∀ e, ¬ s.Divides b e) → s'.splits = s.splits + (s.between b).length
  duplicates_same : s.contains b.address = true → s'.duplicates = s.duplicates + 1
  duplicates : ¬ s.contains b.address = true → s'.duplicates = s.duplicates

/-- The second half completes what the insertion of the first half has spliced in. -/
theorem Spliced.put_second (h : (s.giveWay a).Spliced first s') (hb : b.Sound)
    (hl : s.between b = l ++ [a]) (hv : b.Halves a first second) (hfit : s.Fitting b)
    (hstarts : (s'.put second).starts = s.starts.insert b.address) :
    s.Spliced b (s'.put second) := by
  have hpair := pairwise_between (s := s) (b := b)
  rw [hl] at hpair
  have hlt : ∀ x ∈ l, x < a := fun x hx =>
    (List.pairwise_append.mp hpair).2.2 x hx a List.mem_cons_self
  obtain ⟨-, hlow, -⟩ := mem_of_between_eq hl
  have hba : b.address ≠ a := fun heq => Nat.lt_irrefl _ (heq ▸ hlow)
  have hbetween := between_giveWay hl hv
  have hput : ∀ x, x ≠ a → (s'.put second).get? x = s'.get? x := by
    intro x hx
    rw [get?_put, hv.address_second, if_neg hx]
  have hgive : ∀ x, x ≠ a → (s.giveWay a).get? x = s.get? x := by
    intro x hx
    rw [get?_giveWay, if_neg hx]
  have hne : ∀ e, s.Divides b e → e.address ≠ a := by
    rintro e he rfl
    have := UInt64.lt_iff_toNat_lt.mp he.start_lt
    omega
  have hdiv : ∀ e, (s.giveWay a).Divides first e ↔ s.Divides b e := fun e => divides_giveWay hl hv
  -- The slices of the first half are slices of the block.
  have hslice : ∀ lo next, (∀ x ∈ next, x ∈ l) →
      first.slice? lo next = b.slice? lo (next.or (some a)) := by
    intro lo next hnext
    refine hv.slice?_first hb fun x hx => ⟨hlt x (hnext x hx), hfit.1 x ?_⟩
    rw [hl]
    exact List.mem_append_left _ (hnext x hx)
  refine ⟨hstarts, ?_, ?_, ?_, ?_, ?_, ?_, ?_, ?_, ?_⟩
  · intro x hx
    rw [hl] at hx ⊢
    rcases List.mem_append.mp hx with hx | hx
    · have hxa : x ≠ a := fun heq => UInt64.lt_irrefl _ (heq ▸ hlt x hx)
      have hnext := h.inner x (by rw [hbetween]; exact hx)
      rw [hbetween, hslice x _ fun y hy => List.mem_of_find?_eq_some hy] at hnext
      rw [hput x hxa, hnext, List.find?_append, List.find?_singleton, if_pos (by simpa using hlt x hx)]
    · obtain rfl := List.mem_singleton.mp hx
      have hnone : (l ++ [x]).find? (x < ·) = none := by
        refine List.find?_eq_none.mpr fun y hy => ?_
        rcases List.mem_append.mp hy with hy | hy
        · simpa using UInt64.le_of_lt (hlt y hy)
        · simp [List.mem_singleton.mp hy]
      rw [hnone, hv.slice?_second hba.symm, get?_put, hv.address_second, if_pos rfl]
  · intro old hold
    rw [hput _ hba]
    have hsame := h.same old
    rw [hv.address_first, hgive _ hba] at hsame
    exact hsame hold
  · intro e he
    have hdivided := h.divided e ((hdiv e).mpr he)
    rw [hv.address_first] at hdivided
    rw [hput _ (hne e he), hput _ hba]
    exact hdivided
  · intro hout
    have hfirst := h.outside fun k c hc => by
      rw [hv.address_first]
      exact hout k c (get?_of_giveWay hc)
    rw [hv.address_first, hbetween, hslice _ _ fun y hy => List.mem_of_mem_head? hy] at hfirst
    rw [hput _ hba, hfirst, hl, List.head?_append]
    rfl
  · intro x hxb hx hxe
    rw [hl, List.mem_append, List.mem_singleton, not_or] at hx
    rw [hput x hx.2, h.elsewhere x (by rw [hv.address_first]; exact hxb) (by rw [hbetween]; exact hx.1)
      fun e he => hxe e ((hdiv e).mp he), hgive x hx.2]
  · rintro ⟨e, he⟩
    have hsplits := h.splits_divided ⟨e, (hdiv e).mpr he⟩
    rw [hbetween] at hsplits
    show s'.splits = _
    rw [hsplits, hl, List.length_append]
    show s.splits + 1 + l.length + 1 = s.splits + (l.length + 1) + 1
    omega
  · intro hno
    have hsplits := h.splits fun e he => hno e ((hdiv e).mp he)
    rw [hbetween] at hsplits
    show s'.splits = _
    rw [hsplits, hl, List.length_append]
    show s.splits + 1 + l.length = s.splits + (l.length + 1)
    omega
  · intro hin
    refine h.duplicates_same ?_
    rw [hv.address_first]
    exact contains_giveWay.mpr ⟨hba, hin⟩
  · intro hout
    refine h.duplicates ?_
    rw [hv.address_first]
    exact fun hin => hout (contains_giveWay.mp hin).2

theorem Divides.mem_span (he : s.Divides b e) : b.address.toNat ∈ e.span :=
  ⟨(UInt64.lt_iff_toNat_lt.mp he.start_lt).le, he.lt_stop⟩

theorem Spliced.keep (hl : s.between b = []) (hout : ¬ s.contains b.address = true)
    (hno : ∀ e, ¬ s.Divides b e) (hstarts : (s.put b).starts = s.starts.insert b.address) :
    s.Spliced b (s.put b) where
  starts := hstarts
  inner := by simp [hl]
  same := fun old hold => absurd (contains_iff.mpr ⟨old, hold⟩) hout
  divided := fun e he => absurd he (hno e)
  outside := by
    intro _
    rw [get?_put, if_pos rfl, hl, List.head?_nil, Block.slice?, if_pos rfl]
  elsewhere := by
    intro a ha _ _
    rw [get?_put, if_neg ha]
  splits_divided := fun ⟨e, he⟩ => absurd he (hno e)
  splits := by
    intro _
    rw [hl]
    rfl
  duplicates_same := fun hin => absurd hin hout
  duplicates := fun _ => rfl

theorem Spliced.drop (h : s.Sound) (hl : s.between b = []) (hin : s.contains b.address = true)
    (hstarts : s.noteDuplicate.starts = s.starts.insert b.address) :
    s.Spliced b s.noteDuplicate where
  starts := hstarts
  inner := by simp [hl]
  same := fun _ hold => hold
  divided := fun e he => absurd hin (he.not_contains h)
  outside := by
    intro hout
    obtain ⟨old, hold⟩ := contains_iff.mp hin
    have hstop := (h.blocks _ old hold).lt_stop
    rw [h.keyed _ old hold] at hstop
    exact absurd ⟨by rw [h.keyed _ old hold], hstop⟩ (hout _ old hold)
  elsewhere := fun _ _ _ _ => rfl
  splits_divided := fun ⟨e, he⟩ => absurd hin (he.not_contains h)
  splits := by
    intro _
    rw [hl]
    rfl
  duplicates_same := fun _ => rfl
  duplicates := fun hout => absurd hin hout

theorem Spliced.divide (h : s.Sound) (hl : s.between b = []) (he : s.Divides b e)
    (hv : e.Halves b.address first second)
    (hstarts : (((s.giveWay e.address).put first).put second).starts = s.starts.insert b.address) :
    s.Spliced b (((s.giveWay e.address).put first).put second) where
  starts := hstarts
  inner := by simp [hl]
  same := fun old hold => absurd (contains_iff.mpr ⟨old, hold⟩) (he.not_contains h)
  divided := by
    intro e' he'
    obtain rfl := he.unique h he'
    have hne : b.address ≠ e'.address := fun heq => UInt64.lt_irrefl _ (heq ▸ he.start_lt)
    rw [hv.slice?_second hne, Block.slice?, hv.upTo?_eq, Option.bind_some, if_pos rfl, get?_put,
      get?_put, get?_put, hv.address_second, hv.address_first, if_neg hne.symm, if_pos rfl,
      if_pos rfl]
    exact ⟨rfl, rfl⟩
  outside := fun hout => absurd he.mem_span (hout _ e he.stored)
  elsewhere := by
    intro a ha _ hae
    rw [get?_put, get?_put, get?_giveWay, hv.address_second, hv.address_first, if_neg ha,
      if_neg (hae e he), if_neg (hae e he)]
  splits_divided := by
    intro _
    rw [hl]
    rfl
  splits := fun hno => absurd he (hno e)
  duplicates_same := fun hin => absurd hin (he.not_contains h)
  duplicates := fun _ => rfl

theorem Course.spliced {r : Store × Checked BlockError Unit} (h : Course s b r) (hs : s.Sound)
    (hb : b.Sound) (hok : r.2 = .ok ()) : s.Spliced b r.1 := by
  induction h with
  | keep hl hout hno ht =>
    have hins := (Course.keep hl hout hno ht).insert_eq
    exact .keep hl hout hno (by rw [← starts_insert hs.keyed (by rw [hins]), hins])
  | drop hl hin ht =>
    have hins := (Course.drop hl hin ht).insert_eq
    exact .drop hs hl hin (by rw [← starts_insert hs.keyed (by rw [hins]), hins])
  | divide hl he hsplit ht hfirst hsecond =>
    have hins := (Course.divide hl he hsplit ht hfirst hsecond).insert_eq
    exact .divide hs hl he (Block.halves_of_split hsplit)
      (by rw [← starts_insert hs.keyed (by rw [hins]), hins])
  | undivided hl he hsplit ht => cases hok
  | unsplit hl hsplit ht => cases hok
  | split hl hsplit ht hfirst hsecond ih =>
    have hcourse := Course.split hl hsplit ht hfirst hsecond
    have hins := hcourse.insert_eq
    have hv := Block.halves_of_split hsplit
    have hspliced := ih (hs.giveWay _) (Block.Sound.splitStable hb trivial hv).1 rfl
    exact hspliced.put_second hb hl hv ((hcourse.ok_iff hs hb).mp rfl)
      (by rw [← starts_insert hs.keyed (by rw [hins]), hins])
  | stuck hl hsplit ht _ ih => cases hok

/-- **What an insertion does, exactly.**  It takes at most three turns and two more for
each start inside the block; it succeeds if and only if all these starts are boundaries
of the block, and its own start is a boundary of the block that it divides; and then the
block is spliced into the store. -/
theorem Built.insert_exact {u : Lifted} (hs : Built s) (hb : Block.classify u = .ok b) :
    repairWithin (1 + 2 * ((s.between b).length + 1)) s [b] = some (s.insert b) ∧
    ((s.insert b).2 = .ok () ↔
      (∀ a ∈ s.between b, b.boundaries.contains a = true) ∧
        ∀ e, s.Divides b e → e.boundaries.contains b.address = true) ∧
    ((s.insert b).2 = .ok () → s.Spliced b (s.insert b).1) := by
  have hblock : b.Sound := .of_classified (Block.classified_of_classify hb)
  have hcourse := hs.sound.course_insert hblock
  exact ⟨hcourse.repairWithin, hcourse.ok_iff hs.sound hblock, hcourse.spliced hs.sound hblock⟩

end Store

/-- A unit of three instructions of two bytes each that goes on behind them. -/
def Lifted.threeSteps (a : Addr) : Lifted :=
  { address := a, size := 6, kind := .fallthrough
    body := { insts := [.setPc a, .setPc (a + 2), .setPc (a + 4), .branch (.pc (a + 6)), .exit]
              nextTemp := 0 } }

/-- The block of that unit. -/
def Block.threeSteps (a : Addr) : Block :=
  { address := a, size := 6, kind := .fallthrough, successors := .singleton (a + 6)
    body := { insts := [.marker a, .setPc a, .marker (a + 2), .setPc (a + 2), .marker (a + 4),
                .setPc (a + 4), .branch (.pc (a + 6)), .exit], nextTemp := 0 } }

/-- A block that starts inside one block and reaches over the start of another is dropped up
to there; the first one is divided, and the second one gives way to the rest of it. -/
theorem Store.insert_exact_across :
    ∃ s : Store, Built s ∧ Block.classify (.threeSteps 18) = .ok (.threeSteps 18) ∧
      s.addresses = [16, 22] ∧ s.between (.threeSteps 18) = [22] ∧
      s.Divides (.threeSteps 18) (.twoSteps 16) ∧
      (s.insert (.threeSteps 18)).1.get? 22 = (Block.threeSteps 18).slice? 22 none ∧
      (s.insert (.threeSteps 18)).1.get? 18 = (Block.twoSteps 16).slice? 18 none ∧
      (s.insert (.threeSteps 18)).1.splits = 2 := by
  have h16 : Block.classify (.twoSteps 16) = .ok (.twoSteps 16) := by decide
  have h22 : Block.classify (.twoSteps 22) = .ok (.twoSteps 22) := by decide
  have h18 : Block.classify (.threeSteps 18) = .ok (.threeSteps 18) := by decide
  have hbuilt := (Built.empty.insert h16).insert h22
  have hbetween : (((({} : Store).insert (.twoSteps 16)).1).insert (.twoSteps 22)).1.between
      (.threeSteps 18) = [22] := by decide +kernel
  have hdivides : (((({} : Store).insert (.twoSteps 16)).1).insert (.twoSteps 22)).1.Divides
      (.threeSteps 18) (.twoSteps 16) := ⟨by decide +kernel, by decide, by decide⟩
  have hexact := hbuilt.insert_exact h18
  have hok := hexact.2.1.mpr ⟨by rw [hbetween, List.forall_mem_singleton]; rfl, fun e he => by
    rw [hdivides.unique hbuilt.sound he]
    rfl⟩
  have hspliced := hexact.2.2 hok
  have hinner := hspliced.inner 22 (by rw [hbetween]; exact List.mem_cons_self)
  have hsplits := hspliced.splits_divided ⟨_, hdivides⟩
  rw [hbetween] at hinner hsplits
  exact ⟨_, hbuilt, h18, by decide +kernel, hbetween, hdivides, hinner,
    (hspliced.divided _ hdivides).2, hsplits.trans (by decide +kernel)⟩

end FlowRecovery
