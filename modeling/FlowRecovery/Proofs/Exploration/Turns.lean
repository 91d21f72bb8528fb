/-
The turns of an exploration.

`Turn` says how one round of `Explorer.run` changes the state: the least address of
the worklist is taken off and, unless it was explored before, lifted.  Its lift
either fails with a decode fault, and the address is dropped, or yields a block that
is kept (`Kept`).

* `ends_of_run` — a run is a sequence of turns, up to a state with an empty worklist or to
  a turn that fails;
* `turns_of_explore` — the same for a whole exploration;
* `step_cases` — what the turn of an address can do.
-/
import FlowRecovery.Exploration
import Mathlib.Logic.Relation

namespace FlowRecovery

namespace Block

theorem classify_ne_lift {u : Lifted} {fault : LiftFault} :
    classify u ≠ .error (.refused (.lift fault)) := by
  intro h
  unfold classify at h
  cases hl : (checkedAdd u.address u.size : Checked BlockError Word) with
  | error e =>
    rw [hl] at h
    rw [checkedAdd] at hl
    split at hl
    · cases hl
    · cases hl
      cases h
  | ok limit =>
    rw [hl] at h
    simp only [bind, Except.bind] at h
    split at h
    · cases h
    · split at h
      · cases h
      · next body hbody =>
        cases hv : body.verify u.address u.size with
        | error e =>
          rw [hv] at h
          cases h
        | ok v =>
          rw [hv] at h
          cases h

variable {answer : Except LiftFault Lifted} {lifter : LiftFn} {a : Addr} {b : Block}

/-- A block comes from a unit that the lifter answered with. -/
theorem ofAnswer_eq_ok (h : ofAnswer answer = .ok b) :
    ∃ u, answer = .ok u ∧ classify u = .ok b := by
  obtain ⟨u, hu, h⟩ := Checked.bind_eq_ok.mp h
  rw [Checked.lift_eq_ok, Checked.mapError_eq_ok] at hu
  exact ⟨u, hu, h⟩

theorem lift_eq_ok (h : lift lifter a = .ok b) : ∃ u, lifter a = .ok u ∧ classify u = .ok b :=
  ofAnswer_eq_ok h

/-- The block of the unit that the lifter answers with. -/
theorem lift_of_ok {u : Lifted} (hu : lifter a = .ok u) (hb : classify u = .ok b) :
    lift lifter a = .ok b := by
  rw [lift, hu]
  exact hb

/-- A lift fault comes from the lifter. -/
theorem ofAnswer_eq_fault {fault : LiftFault}
    (h : ofAnswer answer = .error (.refused (.lift fault))) : answer = .error fault := by
  cases answer with
  | error e =>
    cases h
    rfl
  | ok u => exact absurd h classify_ne_lift

end Block

namespace Explorer

/-- One round of a run. -/
inductive Turn (x : Explorer) : Exploration → Exploration → Prop where
  | again {e : Exploration} {a : Addr} {rest : AddrSet}
      (hp : e.worklist.popMin? = some (a, rest)) (ha : a ∈ e.explored) :
      Turn x e { e with worklist := rest }
  | take {e next : Exploration} {a : Addr} {rest : AddrSet}
      (hp : e.worklist.popMin? = some (a, rest)) (ha : a ∉ e.explored)
      (hs : x.step ({ e with worklist := rest }.visit a) a = .ok next) :
      Turn x e next

/-- Any number of rounds. -/
abbrev Turns (x : Explorer) : Exploration → Exploration → Prop := Relation.ReflTransGen (Turn x)

/-- How a run ends: with an empty worklist, or with the turn of an address that fails. -/
theorem ends_of_run (x : Explorer) (e : Exploration) :
    ∃ last, x.Turns e last ∧
      ((last.worklist = ∅ ∧ x.run e = (last, .ok ())) ∨
        ∃ a rest error, last.worklist.popMin? = some (a, rest) ∧ a ∉ last.explored ∧
          x.step ({ last with worklist := rest }.visit a) a = .error error ∧
          x.run e = ({ last with worklist := rest }.visit a, .error error)) := by
  rw [run]
  generalize () = m
  fun_induction runWith (fun _ a => (x.lifter a, ())) x m e with
  | case1 m e hp => exact ⟨e, .refl, Or.inl ⟨AddrSet.popMin?_eq_none.mp hp, rfl⟩⟩
  | case2 m e a rest hp ha ih =>
    obtain ⟨last, hturns, hend⟩ := ih
    exact ⟨last, hturns.head (.again hp ha), hend⟩
  | case3 m e a rest hp ha error hs =>
    exact ⟨e, .refl, Or.inr ⟨a, rest, error, hp, ha, hs, rfl⟩⟩
  | case4 m e a rest hp ha next hs ih =>
    obtain ⟨last, hturns, hend⟩ := ih
    exact ⟨last, hturns.head (.take hp ha hs), hend⟩

/-- A run that succeeds takes turns until the worklist is empty. -/
theorem turns_of_run {x : Explorer} {e : Exploration} (h : (x.run e).2 = .ok ()) :
    Turns x e (x.run e).1 ∧ (x.run e).1.worklist = ∅ := by
  obtain ⟨last, hturns, ⟨hempty, hrun⟩ | ⟨a, rest, error, -, -, -, hrun⟩⟩ := ends_of_run x e
  · rw [hrun]
    exact ⟨hturns, hempty⟩
  · rw [hrun] at h
    cases h

/-- An exploration that succeeds takes turns, from the state in which the entries are
to be explored, until the worklist is empty. -/
theorem turns_of_explore {lifter : Lifter} {image : Image} {options : ExploreOptions}
    {entries : List Addr} {e : Exploration}
    (h : (explore lifter image options entries).result = .ok e) :
    Turns { lifter := lifter.lift, image, options } (entries.foldl Exploration.enqueue {}) e ∧
      e.worklist = ∅ := by
  unfold explore at h
  split at h
  · cases h
  · split at h
    · cases h
    · rw [course] at h
      cases hr : (Explorer.run { lifter := lifter.lift, image, options }
          (entries.foldl Exploration.enqueue {})).2 with
      | error error =>
        simp only [hr] at h
        cases h
      | ok u =>
        simp only [hr] at h
        cases h
        exact turns_of_run hr

/-- A round of the loop. -/
theorem runWith_eq {σ : Type} (lift : σ → Addr → Except LiftFault Lifted × σ) (x : Explorer)
    (m : σ) (e : Exploration) :
    x.runWith lift m e = match e.worklist.popMin? with
      | none => (m, e, .ok ())
      | some (a, rest) =>
        if a ∈ e.explored then x.runWith lift m { e with worklist := rest }
        else
          match x.settle ({ e with worklist := rest }.visit a) a (lift m a).1 with
          | .error error => ((lift m a).2, { e with worklist := rest }.visit a, .error error)
          | .ok next => x.runWith lift (lift m a).2 next := by
  rw [runWith]
  split
  · next hp => simp only [hp]
  · next a rest hp =>
    simp only [hp]
    split
    · rfl
    · split
      · next hs => simp only [hs]
      · next hs => simp only [hs]

/-- A round of a run. -/
theorem run_eq (x : Explorer) (e : Exploration) :
    x.run e = match e.worklist.popMin? with
      | none => (e, .ok ())
      | some (a, rest) =>
        if a ∈ e.explored then x.run { e with worklist := rest }
        else
          match x.step ({ e with worklist := rest }.visit a) a with
          | .error error => ({ e with worklist := rest }.visit a, .error error)
          | .ok next => x.run next := by
  rw [run, runWith_eq]
  cases e.worklist.popMin? with
  | none => rfl
  | some popped =>
    dsimp only
    split
    · rfl
    · rw [step]
      split <;> rfl

/-! ### What the turn of an address does -/

/-- From one state to another only the worklist grows; candidates may be counted. -/
structure Grows (e e' : Exploration) : Prop where
  store : e'.store = e.store
  explored : e'.explored = e.explored
  dropped : e'.dropped = e.dropped
  lifted : e'.lifted = e.lifted
  faults : e'.faults = e.faults
  worklist : ∀ w ∈ e.worklist, w ∈ e'.worklist

namespace Grows

theorem refl (e : Exploration) : Grows e e := ⟨rfl, rfl, rfl, rfl, rfl, fun _ h => h⟩

theorem trans {e e' e'' : Exploration} (h : Grows e e') (h' : Grows e' e'') : Grows e e'' :=
  ⟨h'.store.trans h.store, h'.explored.trans h.explored, h'.dropped.trans h.dropped,
    h'.lifted.trans h.lifted, h'.faults.trans h.faults,
    fun w hw => h'.worklist w (h.worklist w hw)⟩

theorem enqueue (e : Exploration) (a : Addr) : Grows e (e.enqueue a) := by
  unfold Exploration.enqueue
  split
  · exact refl e
  · exact ⟨rfl, rfl, rfl, rfl, rfl, fun w hw => AddrSet.mem_insert.mpr (Or.inr hw)⟩

theorem foldl_enqueue (l : List Addr) (e : Exploration) :
    Grows e (l.foldl Exploration.enqueue e) := by
  induction l generalizing e with
  | nil => exact refl e
  | cons a l ih => exact (enqueue e a).trans (ih _)

theorem consider {x : Explorer} {e e' : Exploration} {value : Word}
    (h : x.consider e value = .ok e') : Grows e e' := by
  obtain ⟨b, -, h⟩ := Checked.bind_eq_ok.mp h
  cases b with
  | false =>
    cases h
    exact ⟨rfl, rfl, rfl, rfl, rfl, fun _ hw => hw⟩
  | true =>
    cases h
    have hcount : Grows e { e with candidates := e.candidates + 1 } :=
      ⟨rfl, rfl, rfl, rfl, rfl, fun _ hw => hw⟩
    exact hcount.trans (enqueue _ value)

theorem foldlM_consider {x : Explorer} {l : List Word} {e e' : Exploration}
    (h : l.foldlM x.consider e = .ok e') : Grows e e' := by
  induction l generalizing e with
  | nil =>
    cases h
    exact refl _
  | cons value l ih =>
    obtain ⟨e₁, h₁, h⟩ := Checked.bind_eq_ok.mp h
    exact (consider h₁).trans (ih h)

end Grows

theorem mem_enqueue (e : Exploration) (a : Addr) :
    a ∈ (e.enqueue a).explored ∨ a ∈ (e.enqueue a).worklist := by
  unfold Exploration.enqueue
  split
  · next h => exact Or.inl h
  · exact Or.inr (AddrSet.mem_insert.mpr (Or.inl rfl))

/-- Every address that is put on the worklist is explored or to be explored. -/
theorem mem_foldl_enqueue {l : List Addr} {a : Addr} (ha : a ∈ l) (e : Exploration) :
    a ∈ (l.foldl Exploration.enqueue e).explored ∨
      a ∈ (l.foldl Exploration.enqueue e).worklist := by
  induction l generalizing e with
  | nil => cases ha
  | cons c l ih =>
    rcases List.mem_cons.mp ha with rfl | ha
    · have hg := Grows.foldl_enqueue l (e.enqueue a)
      rw [List.foldl_cons, hg.explored]
      exact (mem_enqueue e a).imp_right (hg.worklist a)
    · exact ih ha _

/-- A lifted block has been kept: it is in the store, and what it leads to is explored
or to be explored. -/
structure Kept (e : Exploration) (b : Block) (e' : Exploration) : Prop where
  inserted : (e.store.insert b).2 = .ok ()
  store : e'.store = (e.store.insert b).1
  explored : e'.explored = e.explored
  dropped : e'.dropped = e.dropped
  lifted : e'.lifted = e.lifted + 1
  faults : e'.faults = e.faults
  worklist : ∀ w ∈ e.worklist, w ∈ e'.worklist
  next : ∀ t, t ∈ b.successors ∨ t ∈ b.callTargets → t ∈ e'.explored ∨ t ∈ e'.worklist

theorem kept_of_keep {x : Explorer} {e e' : Exploration} {b : Block}
    (h : x.keep e b = .ok e') : Kept e b e' := by
  obtain ⟨⟨⟩, hinserted, h⟩ := Checked.bind_eq_ok.mp h
  rw [Checked.within, Checked.mapError_eq_ok] at hinserted
  have hg := (Grows.foldl_enqueue _ _).trans (Grows.foldlM_consider h)
  refine ⟨hinserted, hg.store, hg.explored, hg.dropped, hg.lifted, hg.faults, hg.worklist, ?_⟩
  intro t ht
  have hc := Grows.foldlM_consider h
  have hmem : t ∈ b.successors.toList ++ b.callTargets.toList := List.mem_append.mpr ht
  rw [hc.explored]
  exact (mem_foldl_enqueue hmem _).imp_right (hc.worklist t)

/-- The turn of an address drops it after a decode fault, or keeps the block of the
unit that the lifter answers with. -/
theorem step_cases {x : Explorer} {e e' : Exploration} {a : Addr} (h : x.step e a = .ok e') :
    (∃ fault, x.lifter a = .error fault ∧ e' = e.drop a) ∨
      ∃ u b, x.lifter a = .ok u ∧ Block.classify u = .ok b ∧ Kept e b e' := by
  unfold step settle at h
  split at h
  · next b hb =>
    obtain ⟨u, hu, hc⟩ := Block.ofAnswer_eq_ok hb
    exact Or.inr ⟨u, b, hu, hc, kept_of_keep h⟩
  · next fault hf =>
    split at h
    · cases h
      exact Or.inl ⟨fault, Block.ofAnswer_eq_fault hf, rfl⟩
    · cases h
  · cases h
  · cases h

end Explorer

end FlowRecovery
