/-
Every address has one turn.

All that is put on the worklist is tested against the explored addresses, so the two
never share an address: a round is never spent on an address that had its turn, and each
round moves one address from the worklist to the explored ones.  There are only `2 ^ 64`
of them, so the rounds come to an end, whatever the lifter answers.

* `Queues`, `queues_of_step` — what the turn of an address can put on the worklist;
* `Orderly.of_turn`, `Orderly.moves` — a round keeps the two apart, and moves one address;
* `not_endless` — there is no endless sequence of rounds;
* `runWith_congr` — lifters that answer alike run alike.  So a lifter that writes down what it
  is asked has, in the end, written down the turns (`runWith_record`), and one whose answers
  depend on its memory behaves like a function (`exists_run_eq_runWith`).
-/
import FlowRecovery.Proofs.Body.Transfer
import FlowRecovery.Proofs.Exploration.Turns

namespace FlowRecovery

namespace Explorer

variable {x : Explorer} {e e' e'' : Exploration}

/-! ### What a turn puts on the worklist -/

/-- Whether the number is one of the unit's that is taken for a code address. -/
def Extracts (x : Explorer) (u : Lifted) (v : Word) : Prop :=
  x.options.extractAddresses = true ∧ v ∈ u.body.constants ∧ x.image.isCode v = true ∧
    x.image.looksLikeString v x.options.minStringLength = false

/-- Whether the unit at `a` leads to `v`: by control transfer, by a call, or by a number
that is taken for a code address. -/
def Yields (x : Explorer) (a v : Addr) : Prop :=
  ∃ u b, x.lifter a = .ok u ∧ Block.classify u = .ok b ∧
    (v ∈ b.successors ∨ v ∈ b.callTargets ∨ x.Extracts u v)

/-- From one state to another nothing is explored, and the worklist only grows: by
addresses with the given property that have not been explored. -/
structure Queues (New : Addr → Prop) (e e' : Exploration) : Prop where
  explored : e'.explored = e.explored
  turns : e'.turns = e.turns
  kept : ∀ w ∈ e.worklist, w ∈ e'.worklist
  new : ∀ w ∈ e'.worklist, w ∈ e.worklist ∨ (w ∉ e.explored ∧ New w)

namespace Queues

variable {New : Addr → Prop}

theorem of_worklist_eq (hexplored : e'.explored = e.explored) (hturns : e'.turns = e.turns)
    (hworklist : e'.worklist = e.worklist) : Queues New e e' :=
  ⟨hexplored, hturns, fun w hw => by rw [hworklist]; exact hw, fun w hw => by
    rw [hworklist] at hw
    exact Or.inl hw⟩

theorem trans (h : Queues New e e') (h' : Queues New e' e'') : Queues New e e'' := by
  refine ⟨h'.explored.trans h.explored, h'.turns.trans h.turns,
    fun w hw => h'.kept w (h.kept w hw), ?_⟩
  intro w hw
  rcases h'.new w hw with hw | hw
  · exact h.new w hw
  · rw [h.explored] at hw
    exact Or.inr hw

theorem enqueue {a : Addr} (ha : New a) (e : Exploration) : Queues New e (e.enqueue a) := by
  unfold Exploration.enqueue
  split
  · exact of_worklist_eq rfl rfl rfl
  · next hnot =>
    refine ⟨rfl, rfl, fun w hw => AddrSet.mem_insert.mpr (Or.inr hw), ?_⟩
    intro w hw
    rcases AddrSet.mem_insert.mp hw with rfl | hw
    · exact Or.inr ⟨hnot, ha⟩
    · exact Or.inl hw

theorem foldl_enqueue {l : List Addr} (hl : ∀ a ∈ l, New a) (e : Exploration) :
    Queues New e (l.foldl Exploration.enqueue e) := by
  induction l generalizing e with
  | nil => exact of_worklist_eq rfl rfl rfl
  | cons a l ih =>
    obtain ⟨ha, hl⟩ := List.forall_mem_cons.mp hl
    exact (enqueue ha e).trans (ih hl _)

end Queues

/-- The first worklist holds the entries. -/
theorem queues_initial (entries : List Addr) :
    Queues (· ∈ entries) {} (entries.foldl Exploration.enqueue {}) :=
  .foldl_enqueue (fun _ h => h) {}

/-- A candidate may be code, and starts no string. -/
theorem of_isCandidate {value : Word} (h : x.isCandidate e value = .ok true) :
    x.image.isCode value = true ∧
      x.image.looksLikeString value x.options.minStringLength = false := by
  unfold isCandidate at h
  split at h
  · cases h
  · split at h
    · cases h
    · next hcode =>
      refine ⟨by simpa using hcode, ?_⟩
      obtain ⟨found, -, h⟩ := Checked.bind_eq_ok.mp h
      -- What the store holds there only decides whether the last test is reached.
      have hlast : (do
          if value ∈ e.jumpTables then return false
          return !x.image.looksLikeString value x.options.minStringLength :
          Checked ExploreError Bool) = .ok true →
          x.image.looksLikeString value x.options.minStringLength = false := by
        intro h
        split at h
        · cases h
        · simpa [pure, Except.pure] using h
      cases found with
      | none => exact hlast h
      | some b =>
        by_cases hb : b.address ≠ value
        · simp only [if_pos hb] at h
          cases h
        · simp only [if_neg hb] at h
          exact hlast h

theorem queues_of_consider {New : Addr → Prop} {value : Word}
    (hnew : x.image.isCode value = true →
      x.image.looksLikeString value x.options.minStringLength = false → New value)
    (h : x.consider e value = .ok e') : Queues New e e' := by
  obtain ⟨taken, htaken, h⟩ := Checked.bind_eq_ok.mp h
  cases taken with
  | false =>
    cases h
    exact .of_worklist_eq rfl rfl rfl
  | true =>
    cases h
    obtain ⟨hcode, hstring⟩ := of_isCandidate htaken
    have hcount : Queues New e { e with candidates := e.candidates + 1 } :=
      .of_worklist_eq rfl rfl rfl
    exact hcount.trans (.enqueue (hnew hcode hstring) _)

theorem queues_of_foldlM_consider {New : Addr → Prop} {l : List Word}
    (hnew : ∀ v ∈ l, x.image.isCode v = true →
      x.image.looksLikeString v x.options.minStringLength = false → New v)
    (h : l.foldlM x.consider e = .ok e') : Queues New e e' := by
  induction l generalizing e with
  | nil =>
    cases h
    exact .of_worklist_eq rfl rfl rfl
  | cons value l ih =>
    obtain ⟨e₁, h₁, h⟩ := Checked.bind_eq_ok.mp h
    obtain ⟨hvalue, hl⟩ := List.forall_mem_cons.mp hnew
    exact (queues_of_consider hvalue h₁).trans (ih hl h)

/-- A block that is kept puts what it leads to on the worklist, and nothing else. -/
theorem queues_of_keep {u : Lifted} {b : Block} (hb : Block.classify u = .ok b)
    (h : x.keep e b = .ok e') :
    Queues (fun v => v ∈ b.successors ∨ v ∈ b.callTargets ∨ x.Extracts u v) e e' := by
  obtain ⟨-, -, h⟩ := Checked.bind_eq_ok.mp h
  -- Noting and storing the block leave the worklist alone.
  have hstored : Queues (fun v => v ∈ b.successors ∨ v ∈ b.callTargets ∨ x.Extracts u v) e
      { x.note e b with store := ((x.note e b).store.insert b).1 } := .of_worklist_eq rfl rfl rfl
  refine (hstored.trans (.foldl_enqueue ?_ _)).trans (queues_of_foldlM_consider ?_ h)
  · intro v hv
    rcases List.mem_append.mp hv with hv | hv
    · exact Or.inl hv
    · exact Or.inr (Or.inl hv)
  · intro v hv hcode hstring
    have hconstants := (Block.classified_of_classify hb).constants_eq
    unfold numbers at hv
    split at hv
    · next hextract => exact Or.inr (Or.inr ⟨hextract, hconstants ▸ hv, hcode, hstring⟩)
    · cases hv

theorem queues_of_step {a : Addr} (h : x.step e a = .ok e') : Queues (x.Yields a) e e' := by
  unfold step settle at h
  split at h
  · next b hlift =>
    obtain ⟨u, hu, hb⟩ := Block.ofAnswer_eq_ok hlift
    have hq := queues_of_keep hb h
    refine ⟨hq.explored, hq.turns, hq.kept, ?_⟩
    intro w hw
    rcases hq.new w hw with hw | ⟨hnot, hyields⟩
    · exact Or.inl hw
    · exact Or.inr ⟨hnot, u, b, hu, hb, hyields⟩
  · split at h
    · cases h
      exact .of_worklist_eq rfl rfl rfl
    · cases h
  · cases h
  · cases h

/-! ### One address after the other -/

/-- No address on the worklist has been explored, and the turns are those of the explored
addresses, one for each. -/
structure Orderly (e : Exploration) : Prop where
  apart : ∀ a ∈ e.worklist, a ∉ e.explored
  nodup : e.turns.Nodup
  mem_turns : ∀ a, a ∈ e.turns ↔ a ∈ e.explored

/-- The address moves from the worklist to the explored addresses; nothing else leaves the
worklist, and only what the address leads to comes on it. -/
structure Moves (x : Explorer) (a : Addr) (e e' : Exploration) : Prop where
  waiting : a ∈ e.worklist
  unexplored : a ∉ e.explored
  explored : e'.explored = e.explored.insert a
  turns : e'.turns = a :: e.turns
  gone : a ∉ e'.worklist
  kept : ∀ w ∈ e.worklist, w ≠ a → w ∈ e'.worklist
  new : ∀ w ∈ e'.worklist, w ∈ e.worklist ∨ x.Yields a w

namespace Orderly

theorem of_queues {New : Addr → Prop} (h : Orderly e) (hq : Queues New e e') : Orderly e' := by
  refine ⟨?_, by rw [hq.turns]; exact h.nodup, by rw [hq.turns, hq.explored]; exact h.mem_turns⟩
  intro a ha
  rw [hq.explored]
  rcases hq.new a ha with ha | ⟨hnot, -⟩
  · exact h.apart a ha
  · exact hnot

theorem initial (entries : List Addr) : Orderly (entries.foldl Exploration.enqueue {}) := by
  have hempty : Orderly {} :=
    ⟨fun a ha => absurd ha (AddrSet.not_mem_empty a), List.nodup_nil, fun a => Iff.rfl⟩
  exact hempty.of_queues (queues_initial entries)

/-- Giving an address from the worklist its turn keeps the two apart. -/
theorem visit {a : Addr} {rest : AddrSet} (h : Orderly e)
    (hp : e.worklist.popMin? = some (a, rest)) :
    Orderly ({ e with worklist := rest }.visit a) := by
  have ha : a ∉ e.explored := h.apart a ((AddrSet.mem_of_popMin? hp a).mpr (Or.inl rfl))
  refine ⟨?_, ?_, ?_⟩
  · intro w hw hexplored
    rcases AddrSet.mem_insert.mp hexplored with rfl | hexplored
    · -- The popped address is the least, so it is not among the rest.
      exact UInt64.lt_irrefl _ (AddrSet.lt_of_popMin? hp _ hw)
    · exact h.apart w ((AddrSet.mem_of_popMin? hp w).mpr (Or.inr hw)) hexplored
  · refine List.nodup_cons.mpr ⟨?_, h.nodup⟩
    intro hmem
    exact ha ((h.mem_turns a).mp hmem)
  · intro w
    show w ∈ a :: e.turns ↔ w ∈ e.explored.insert a
    rw [List.mem_cons, AddrSet.mem_insert, h.mem_turns]

/-- A round moves one address from the worklist to the explored ones. -/
theorem moves (h : Orderly e) (ht : x.Turn e e') : ∃ a, x.Moves a e e' := by
  cases ht with
  | @again a rest hp ha =>
    -- What is on the worklist has not been explored.
    exact absurd ha (h.apart a ((AddrSet.mem_of_popMin? hp a).mpr (Or.inl rfl)))
  | @take e a rest hp ha hs =>
    have hq := queues_of_step hs
    have hvisited := (h.visit hp).of_queues hq
    have hpop := AddrSet.mem_of_popMin? hp
    have hexplored : e'.explored = e.explored.insert a := hq.explored
    refine ⟨a, (hpop a).mpr (Or.inl rfl), ha, hexplored, hq.turns, ?_, ?_, ?_⟩
    · intro hmem
      refine hvisited.apart a hmem ?_
      rw [hexplored]
      exact AddrSet.mem_insert.mpr (Or.inl rfl)
    · intro w hw hne
      exact hq.kept w (((hpop w).mp hw).resolve_left hne)
    · intro w hw
      rcases hq.new w hw with hw | ⟨-, hyields⟩
      · exact Or.inl ((hpop w).mpr (Or.inr hw))
      · exact Or.inr hyields

theorem of_turn (h : Orderly e) (ht : x.Turn e e') : Orderly e' := by
  cases ht with
  | @again a rest hp ha =>
    exact absurd ha (h.apart a ((AddrSet.mem_of_popMin? hp a).mpr (Or.inl rfl)))
  | take hp ha hs => exact (h.visit hp).of_queues (queues_of_step hs)

theorem of_turns (h : Orderly e) (ht : x.Turns e e') : Orderly e' := by
  induction ht with
  | refl => exact h
  | tail _ hturn ih => exact ih.of_turn hturn

/-- There are as many turns as explored addresses. -/
theorem length_turns (h : Orderly e) : e.turns.length = e.explored.size := by
  have hnodup : e.explored.toList.Nodup :=
    e.explored.sorted.imp fun hlt heq => UInt64.ne_of_lt hlt heq
  exact ((List.perm_ext_iff_of_nodup h.nodup hnodup).mpr h.mem_turns).length_eq

end Orderly

/-- There is no endless sequence of rounds. -/
theorem not_endless (states : Nat → Exploration) (h : Orderly (states 0)) :
    ¬ ∀ n, x.Turn (states n) (states (n + 1)) := by
  intro hturns
  -- After `n` rounds, at least `n` addresses have had their turns.
  have hmany : ∀ n, Orderly (states n) ∧ n ≤ (states n).turns.length := by
    intro n
    induction n with
    | zero => exact ⟨h, Nat.zero_le _⟩
    | succ n ih =>
      obtain ⟨hn, hle⟩ := ih
      obtain ⟨a, hmoves⟩ := hn.moves (hturns n)
      refine ⟨hn.of_turn (hturns n), ?_⟩
      rw [hmoves.turns, List.length_cons]
      omega
  obtain ⟨hlast, hle⟩ := hmany (0x10000000000000000 + 1)
  have hsize := (states (0x10000000000000000 + 1)).explored.size_le
  rw [hlast.length_turns] at hle
  omega

theorem Orderly.of_run (h : Orderly e) : Orderly (x.run e).1 := by
  obtain ⟨last, hturns, ⟨-, hrun⟩ | ⟨a, rest, error, hp, -, -, hrun⟩⟩ := ends_of_run x e
  · rw [hrun]
    exact h.of_turns hturns
  · rw [hrun]
    exact (h.of_turns hturns).visit hp

/-- The turns of an exploration are those of its run. -/
theorem turns_explore (x : Explorer) (entries : List Addr) :
    (explore { lift := x.lifter } x.image x.options entries).turns =
      (x.run (entries.foldl .enqueue {})).1.turns.reverse := by
  unfold explore
  split
  · next hempty =>
    -- Without entries there is nothing on the worklist.
    rw [List.isEmpty_iff.mp hempty, List.foldl_nil, run_eq]
    rfl
  · rfl

/-! ### What the lifter is asked -/

/-- The same lifter, which also writes down what it is asked, the last address first. -/
def record {σ : Type} (lift : σ → Addr → Except LiftFault Lifted × σ) (m : σ × List Addr)
    (a : Addr) : Except LiftFault Lifted × σ × List Addr :=
  ((lift m.1 a).1, (lift m.1 a).2, a :: m.2)

/-- A turn depends on the explorer only by its image and its options. -/
theorem settle_congr {y : Explorer} (himage : y.image = x.image) (hoptions : y.options = x.options)
    (a : Addr) (answer : Except LiftFault Lifted) : y.settle e a answer = x.settle e a answer := by
  obtain ⟨lifter, image, options⟩ := x
  obtain ⟨lifter', image', options'⟩ := y
  obtain rfl : image' = image := himage
  obtain rfl : options' = options := hoptions
  rfl

section

variable {σ τ : Type} {lift : σ → Addr → Except LiftFault Lifted × σ}
  {lift' : τ → Addr → Except LiftFault Lifted × τ}

/-- Two loops run alike if their memories stay related, and lifters with related memories
answer alike for what is still to explore. -/
theorem runWith_congr {y : Explorer} (himage : y.image = x.image) (hoptions : y.options = x.options)
    {R : σ → τ → AddrSet → List Addr → Prop}
    (hlift : ∀ m n explored turns a, R m n explored turns → a ∉ explored →
      (lift' n a).1 = (lift m a).1 ∧
        R (lift m a).2 (lift' n a).2 (explored.insert a) (a :: turns))
    {m : σ} {n : τ} (h : R m n e.explored e.turns) :
    (y.runWith lift' n e).2 = (x.runWith lift m e).2 ∧
      R (x.runWith lift m e).1 (y.runWith lift' n e).1 (x.runWith lift m e).2.1.explored
        (x.runWith lift m e).2.1.turns := by
  fun_induction runWith lift x m e generalizing n with
  | case1 m e hp =>
    rw [runWith_eq]
    simp only [hp, true_and]
    exact h
  | case2 m e a rest hp ha ih =>
    rw [runWith_eq]
    simp only [hp, if_pos ha]
    exact ih h
  | case3 m e a rest hp ha error hs =>
    obtain ⟨hanswer, hnext⟩ := hlift m n _ _ a h ha
    rw [runWith_eq]
    simp only [hp, if_neg ha, hanswer, settle_congr himage hoptions, hs, true_and]
    exact hnext
  | case4 m e a rest hp ha next hs ih =>
    obtain ⟨hanswer, hnext⟩ := hlift m n _ _ a h ha
    have hturns : next.turns = a :: e.turns :=
      (queues_of_step (x := { x with lifter := fun _ => (lift m a).1 }) hs).turns
    have hexplored : next.explored = e.explored.insert a := explored_settle hs
    rw [runWith_eq]
    simp only [hp, if_neg ha, hanswer, settle_congr himage hoptions, hs]
    refine ih ?_
    rw [hturns, hexplored]
    exact hnext

/-- A run depends on the lifter only by its answers for what is still to explore. -/
theorem run_eq_of_agree {y : Explorer} (himage : y.image = x.image)
    (hoptions : y.options = x.options) (hlift : ∀ a, a ∉ e.explored → y.lifter a = x.lifter a) :
    y.run e = x.run e := by
  refine (runWith_congr himage hoptions (R := fun _ _ explored _ =>
    ∀ a, a ∉ explored → y.lifter a = x.lifter a) ?_ hlift).1
  intro _ _ explored _ a h ha
  exact ⟨h a ha, fun c hc => h c fun hmem => hc (AddrSet.mem_insert.mpr (Or.inr hmem))⟩

/-- Where the answers do not depend on the memory, the run is that of the function. -/
theorem runWith_eq_run {x : Explorer} (hlift : ∀ m a, (lift m a).1 = x.lifter a) (m : σ)
    (e : Exploration) : (x.runWith lift m e).2 = x.run e :=
  (runWith_congr rfl rfl (R := fun _ _ _ _ => True)
    (fun _ n _ _ a _ _ => ⟨hlift n a, trivial⟩) trivial).1

/-- What is written down are the turns; nothing else changes. -/
theorem runWith_record (lift : σ → Addr → Except LiftFault Lifted × σ) (x : Explorer) (m : σ)
    (e : Exploration) :
    x.runWith (record lift) (m, e.turns) e =
      (((x.runWith lift m e).1, (x.runWith lift m e).2.1.turns), (x.runWith lift m e).2) := by
  have hlift : ∀ (m : σ) (n : σ × List Addr) (explored : AddrSet) (turns : List Addr) (a : Addr),
      n = (m, turns) → a ∉ explored → (record lift n a).1 = (lift m a).1 ∧
        (record lift n a).2 = ((lift m a).2, a :: turns) := by
    rintro m n explored turns a rfl _
    exact ⟨rfl, rfl⟩
  obtain ⟨hend, hmemory⟩ := runWith_congr (x := x) (e := e) (m := m) rfl rfl
    (R := fun m n _ turns => n = (m, turns)) hlift rfl
  exact Prod.ext hmemory hend

/-- Since no address is asked for twice, a lifter with a memory behaves like a function. -/
theorem exists_run_eq_runWith (lift : σ → Addr → Except LiftFault Lifted × σ) (x : Explorer)
    (m : σ) (e : Exploration) : ∃ lifter, (x.runWith lift m e).2 = run { x with lifter } e := by
  fun_induction runWith lift x m e with
  | case1 m e hp =>
    refine ⟨x.lifter, ?_⟩
    rw [run_eq]
    simp only [hp]
  | case2 m e a rest hp ha ih =>
    obtain ⟨lifter, ih⟩ := ih
    refine ⟨lifter, ?_⟩
    rw [ih, run_eq _ e]
    simp only [hp, if_pos ha]
  | case3 m e a rest hp ha error hs =>
    refine ⟨fun _ => (lift m a).1, ?_⟩
    have hstep : step { x with lifter := fun _ => (lift m a).1 }
        ({ e with worklist := rest }.visit a) a = .error error := hs
    rw [run_eq]
    simp only [hp, if_neg ha, hstep]
  | case4 m e a rest hp ha next hs ih =>
    obtain ⟨lifter, ih⟩ := ih
    -- The rest of the run does not ask for `a` again.
    refine ⟨Function.update lifter a (lift m a).1, ?_⟩
    have hstep : step { x with lifter := Function.update lifter a (lift m a).1 }
        ({ e with worklist := rest }.visit a) a = .ok next := by
      rw [← hs, step, settle_congr rfl rfl]
      exact congrArg _ (Function.update_self ..)
    rw [ih, run_eq _ e]
    simp only [hp, if_neg ha, hstep]
    refine run_eq_of_agree rfl rfl fun w hw => (Function.update_of_ne ?_ ..).symm
    rintro rfl
    refine hw ?_
    rw [explored_settle hs]
    exact AddrSet.mem_insert.mpr (Or.inl rfl)

end

/-- **Every address is lifted at most once, and the exploration ends.**  In every state
that is reached the worklist and the explored addresses are apart, and there is one turn
for each explored address; every round moves one address; there is no endless sequence of
rounds, and the run ends with an empty worklist or with a turn that fails.  A lifter that
writes down what it is asked has written down the turns, also if its answers depend on
what it was asked before; then too the run is that of a function. -/
theorem explore_lifts_once (x : Explorer) (entries : List Addr) :
    let start : Exploration := entries.foldl .enqueue {}
    (∀ e, x.Turns start e → Orderly e) ∧
    (∀ e e', x.Turns start e → x.Turn e e' → ∃ a, x.Moves a e e') ∧
    (∀ states : Nat → Exploration, states 0 = start →
      ¬ ∀ n, x.Turn (states n) (states (n + 1))) ∧
    (∃ last, x.Turns start last ∧
      ((last.worklist = ∅ ∧ x.run start = (last, .ok ())) ∨
        ∃ a rest error, last.worklist.popMin? = some (a, rest) ∧ a ∉ last.explored ∧
          x.step ({ last with worklist := rest }.visit a) a = .error error ∧
          x.run start = ({ last with worklist := rest }.visit a, .error error))) ∧
    (explore { lift := x.lifter } x.image x.options entries).turns =
      (x.run start).1.turns.reverse ∧
    ∀ (σ : Type) (lift : σ → Addr → Except LiftFault Lifted × σ) (m : σ),
      let asked := (x.runWith (record lift) (m, []) start).1.2
      let outcome := (x.runWith (record lift) (m, []) start).2
      asked.Nodup ∧ (∀ a, a ∈ asked ↔ a ∈ outcome.1.explored) ∧ asked = outcome.1.turns ∧
        (∃ lifter, outcome = run { x with lifter } start) ∧
        ((∀ m a, (lift m a).1 = x.lifter a) → outcome = x.run start) := by
  intro start
  have hstart : Orderly start := .initial entries
  refine ⟨fun e => hstart.of_turns, fun e e' he => (hstart.of_turns he).moves, ?_,
    ends_of_run x start, turns_explore x entries, ?_⟩
  · intro states h0
    exact not_endless states (h0 ▸ hstart)
  · intro σ lift m asked outcome
    have hturns : start.turns = [] := (queues_initial entries).turns
    have hrecord := runWith_record lift x m start
    rw [hturns] at hrecord
    have hasked : asked = (x.runWith lift m start).2.1.turns := congrArg (·.1.2) hrecord
    have houtcome : outcome = (x.runWith lift m start).2 := congrArg Prod.snd hrecord
    rw [hasked, houtcome]
    obtain ⟨lifter, hlifter⟩ := exists_run_eq_runWith lift x m start
    have horderly : Orderly (x.runWith lift m start).2.1 := by
      rw [hlifter]
      exact hstart.of_run
    exact ⟨horderly.nodup, horderly.mem_turns, rfl, ⟨lifter, hlifter⟩,
      fun hlift => runWith_eq_run hlift m start⟩

end Explorer

end FlowRecovery
