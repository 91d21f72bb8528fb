/-
A finished exploration is closed.

A lifter answers in place if the unit it gives for an address starts there.  For such
a lifter every turn keeps two things:

* `Consistent` — blocks start exactly at the explored addresses that were not
  dropped because they could not be lifted, and the counters count both;
* `Settled P` — every stored block has the property `P`, relative to the addresses
  that are explored or to be explored, if lifting establishes it and splits preserve
  it (`Lasting`).

When the worklist is empty, what is to be explored has been explored.
-/
import FlowRecovery.Proofs.Exploration.Turns
import FlowRecovery.Proofs.Store.Disjoint

namespace FlowRecovery

/-- The lifter answers with units that start at the addresses it was asked for. -/
def LiftFn.InPlace (lifter : LiftFn) : Prop := ∀ a u, lifter a = .ok u → u.address = a

namespace Exploration

/-- Whether the address is explored or to be explored. -/
def Known (e : Exploration) (a : Addr) : Prop := a ∈ e.explored ∨ a ∈ e.worklist

/-- Blocks start where lifting succeeded, what was dropped could not be lifted, and the
counters say how often each was the case. -/
structure Consistent (lifter : LiftFn) (e : Exploration) : Prop where
  built : e.store.Built
  starts : ∀ a, a ∈ e.store.starts ↔ a ∈ e.explored ∧ a ∉ e.dropped
  dropped : ∀ a ∈ e.dropped, a ∈ e.explored
  faulty : ∀ a ∈ e.dropped, ∃ fault, lifter a = .error fault
  lifted : e.store.size = e.lifted
  faults : e.dropped.size = e.faults
  total : e.lifted + e.faults = e.explored.size
  duplicates : e.store.duplicates = 0

/-- Every stored block starts at a known address and has the property relative to the
known addresses. -/
def Settled (P : (Addr → Prop) → Block → Prop) (e : Exploration) : Prop :=
  Store.Everywhere e.Known (P e.Known) (e.store, [])

theorem Consistent.initial (lifter : LiftFn) (entries : List Addr) :
    Consistent lifter (entries.foldl enqueue {}) := by
  have hg := Explorer.Grows.foldl_enqueue entries {}
  refine ⟨?_, ?_, ?_, ?_, ?_, ?_, ?_, ?_⟩
  · rw [hg.store]
    exact .empty
  · intro a
    rw [hg.store, hg.explored]
    exact ⟨nofun, fun h => nomatch h.1⟩
  · intro a ha
    rw [hg.dropped] at ha
    cases ha
  · intro a ha
    rw [hg.dropped] at ha
    cases ha
  · rw [hg.store, hg.lifted]
    rfl
  · rw [hg.dropped, hg.faults]
    rfl
  · rw [hg.lifted, hg.faults, hg.explored]
    rfl
  · rw [hg.store]

/-- A decode fault makes an explored address a dropped one. -/
theorem Consistent.drop {lifter : LiftFn} {e : Exploration} {a : Addr} {rest : AddrSet}
    {fault : LiftFault} (h : e.Consistent lifter) (ha : a ∉ e.explored)
    (hfault : lifter a = .error fault) :
    (({ e with worklist := rest }.visit a).drop a).Consistent lifter := by
  have hdropped : a ∉ e.dropped := fun hd => ha (h.dropped a hd)
  have hsize := AddrSet.size_insert_of_not_mem ha
  have hfaults := AddrSet.size_insert_of_not_mem hdropped
  refine ⟨h.built, ?_, ?_, ?_, h.lifted, ?_, ?_, h.duplicates⟩
  · intro c
    show c ∈ e.store.starts ↔ c ∈ e.explored.insert a ∧ c ∉ e.dropped.insert a
    rw [h.starts, AddrSet.mem_insert, AddrSet.mem_insert, not_or]
    constructor
    · rintro ⟨he, hd⟩
      refine ⟨Or.inr he, ?_, hd⟩
      rintro rfl
      exact ha he
    · rintro ⟨he, hne, hd⟩
      exact ⟨he.resolve_left hne, hd⟩
  · intro c hc
    rcases AddrSet.mem_insert.mp hc with rfl | hc
    · exact AddrSet.mem_insert.mpr (Or.inl rfl)
    · exact AddrSet.mem_insert.mpr (Or.inr (h.dropped c hc))
  · intro c hc
    rcases AddrSet.mem_insert.mp hc with rfl | hc
    · exact ⟨fault, hfault⟩
    · exact h.faulty c hc
  · show (e.dropped.insert a).size = e.faults + 1
    rw [hfaults, h.faults]
  · show e.lifted + (e.faults + 1) = (e.explored.insert a).size
    rw [hsize, ← h.total]
    omega

/-- A block that is kept starts at the address of its turn, where none started before. -/
theorem Consistent.kept {lifter : LiftFn} {e e' : Exploration} {a : Addr} {rest : AddrSet}
    {u : Lifted} {b : Block} (h : e.Consistent lifter) (ha : a ∉ e.explored)
    (hu : u.address = a) (hb : Block.classify u = .ok b)
    (hk : Explorer.Kept ({ e with worklist := rest }.visit a) b e') :
    e'.Consistent lifter := by
  have hba : b.address = a := (Block.classified_of_classify hb).address.trans hu
  have hkeyed := h.built.sound.keyed
  have hnew : ¬ e.store.contains b.address = true := by
    rw [hba, ← Store.mem_starts, h.starts]
    exact fun hin => ha hin.1
  have hdropped : a ∉ e.dropped := fun hd => ha (h.dropped a hd)
  have hexplored : e'.explored = e.explored.insert a := hk.explored
  have hstarts : e'.store.starts = e.store.starts.insert a := by
    rw [hk.store, ← hba]
    exact Store.starts_insert hkeyed hk.inserted
  have hsize : e'.store.size = e.store.size + 1 := by
    rw [← Store.size_starts, hstarts, ← Store.size_starts]
    exact AddrSet.size_insert_of_not_mem fun hin => ha ((h.starts a).mp hin).1
  refine ⟨?_, ?_, ?_, ?_, ?_, ?_, ?_, ?_⟩
  · rw [hk.store]
    exact h.built.insert hb
  · intro c
    rw [hstarts, hexplored, hk.dropped, AddrSet.mem_insert, AddrSet.mem_insert, h.starts]
    constructor
    · rintro (rfl | ⟨he, hd⟩)
      · exact ⟨Or.inl rfl, hdropped⟩
      · exact ⟨Or.inr he, hd⟩
    · rintro ⟨rfl | he, hd⟩
      · exact Or.inl rfl
      · exact Or.inr ⟨he, hd⟩
  · intro c hc
    rw [hk.dropped] at hc
    rw [hexplored]
    exact AddrSet.mem_insert.mpr (Or.inr (h.dropped c hc))
  · rw [hk.dropped]
    exact h.faulty
  · rw [hsize, hk.lifted, h.lifted]
    rfl
  · rw [hk.dropped, hk.faults]
    exact h.faults
  · have htotal := h.total
    rw [hk.lifted, hk.faults, hexplored, AddrSet.size_insert_of_not_mem ha]
    show e.lifted + 1 + e.faults = e.explored.size + 1
    omega
  · rw [hk.store]
    exact (Store.duplicates_insert hkeyed hnew).trans h.duplicates

/-- A turn keeps a state consistent. -/
theorem Consistent.of_turn {x : Explorer} {e e' : Exploration} (hx : LiftFn.InPlace x.lifter)
    (h : e.Consistent x.lifter) (ht : x.Turn e e') : e'.Consistent x.lifter := by
  cases ht with
  | again hp ha =>
    exact ⟨h.built, h.starts, h.dropped, h.faulty, h.lifted, h.faults, h.total, h.duplicates⟩
  | @take e a rest hp ha hs =>
    rcases Explorer.step_cases hs with ⟨fault, hfault, rfl⟩ | ⟨u, b, hu, hb, hk⟩
    · exact h.drop ha hfault
    · exact h.kept ha (hx a u hu) hb hk

theorem Consistent.of_turns {x : Explorer} {e e' : Exploration} (hx : LiftFn.InPlace x.lifter)
    (h : e.Consistent x.lifter) (ht : x.Turns e e') : e'.Consistent x.lifter := by
  induction ht with
  | refl => exact h
  | tail _ hturn ih => exact ih.of_turn hx hturn

/-- What is known stays known. -/
theorem Known.of_turn {x : Explorer} {e e' : Exploration} {a : Addr} (h : e.Known a)
    (ht : x.Turn e e') : e'.Known a := by
  cases ht with
  | @again c rest hp hc =>
    rcases h with h | h
    · exact Or.inl h
    · rcases (AddrSet.mem_of_popMin? hp a).mp h with rfl | h
      · exact Or.inl hc
      · exact Or.inr h
  | @take e c rest hp hc hs =>
    have hvisited : ({ e with worklist := rest }.visit c).Known a := by
      rcases h with h | h
      · exact Or.inl (AddrSet.mem_insert.mpr (Or.inr h))
      · rcases (AddrSet.mem_of_popMin? hp a).mp h with rfl | h
        · exact Or.inl (AddrSet.mem_insert.mpr (Or.inl rfl))
        · exact Or.inr h
    rcases Explorer.step_cases hs with ⟨fault, -, rfl⟩ | ⟨u, b, -, -, hk⟩
    · exact hvisited
    · exact hvisited.imp (fun h => hk.explored ▸ h) (hk.worklist a)

/-- A property of blocks, relative to the known addresses, that lifting establishes and
that splits at known addresses preserve. -/
structure Lasting (lifter : LiftFn) (P : (Addr → Prop) → Block → Prop) : Prop where
  mono : ∀ {known known' : Addr → Prop} {b : Block}, (∀ a, known a → known' a) →
    P known b → P known' b
  lifted : ∀ {known : Addr → Prop} {a : Addr} {u : Lifted} {b : Block}, lifter a = .ok u →
    Block.classify u = .ok b → (∀ t, t ∈ b.successors ∨ t ∈ b.callTargets → known t) → P known b
  split : ∀ known : Addr → Prop, Store.SplitStable known (P known)

theorem Settled.initial (P : (Addr → Prop) → Block → Prop) (entries : List Addr) :
    Settled P (entries.foldl enqueue {}) := by
  refine ⟨fun k b hb => ?_, nofun⟩
  rw [(Explorer.Grows.foldl_enqueue entries {}).store] at hb
  cases hb

/-- A turn keeps what lasts. -/
theorem Settled.of_turn {x : Explorer} {P : (Addr → Prop) → Block → Prop} {e e' : Exploration}
    (hx : LiftFn.InPlace x.lifter) (hP : Lasting x.lifter P) (h : Settled P e)
    (ht : x.Turn e e') : Settled P e' := by
  have hknown : ∀ a, e.Known a → e'.Known a := fun a ha => ha.of_turn ht
  -- The blocks of the old store still have the property when more is known.
  have hold : Store.Everywhere e'.Known (P e'.Known) (e.store, []) := by
    refine ⟨fun k b hb => ?_, nofun⟩
    obtain ⟨hkey, hk, hb⟩ := h.stored k b hb
    exact ⟨hkey, hknown k hk, hP.mono hknown hb⟩
  cases ht with
  | again hp ha => exact hold
  | @take e a rest hp ha hs =>
    rcases Explorer.step_cases hs with ⟨fault, -, rfl⟩ | ⟨u, b, hu, hb, hk⟩
    · exact hold
    · have hba : b.address = a := (Block.classified_of_classify hb).address.trans (hx a u hu)
      have hstart : e'.Known b.address := by
        left
        rw [hk.explored, hba]
        exact AddrSet.mem_insert.mpr (Or.inl rfl)
      unfold Settled
      rw [hk.store]
      exact hold.insert (hP.split _) ⟨hstart, hP.lifted hu hb hk.next⟩

theorem Settled.of_turns {x : Explorer} {P : (Addr → Prop) → Block → Prop}
    {e e' : Exploration} (hx : LiftFn.InPlace x.lifter) (hP : Lasting x.lifter P)
    (h : Settled P e) (ht : x.Turns e e') : Settled P e' := by
  induction ht with
  | refl => exact h
  | tail _ hturn ih => exact ih.of_turn hx hP hturn

end Exploration

open Exploration

variable {lifter : Lifter} {image : Image} {options : ExploreOptions} {entries : List Addr}
  {e : Exploration}

theorem consistent_of_explore (hl : LiftFn.InPlace lifter.lift)
    (h : (explore lifter image options entries).result = .ok e) : e.Consistent lifter.lift :=
  (Consistent.initial lifter.lift entries).of_turns hl (Explorer.turns_of_explore h).1

/-- What lasts holds of every block of a finished exploration, relative to what has
been explored. -/
theorem explored_of_explore {P : (Addr → Prop) → Block → Prop}
    (hl : LiftFn.InPlace lifter.lift) (hP : Lasting lifter.lift P)
    (h : (explore lifter image options entries).result = .ok e) {k : Addr} {b : Block}
    (hb : e.store.get? k = some b) : P (· ∈ e.explored) b := by
  obtain ⟨hturns, hempty⟩ := Explorer.turns_of_explore h
  have hsettled := (Settled.initial P entries).of_turns hl hP hturns
  obtain ⟨-, -, hPb⟩ := hsettled.stored k b hb
  refine hP.mono (fun a ha => ?_) hPb
  rcases ha with ha | ha
  · exact ha
  · rw [hempty] at ha
    cases ha

/-- The edges of a block lead to known addresses. -/
def Block.Leads (known : Addr → Prop) (b : Block) : Prop :=
  ∀ t, t ∈ b.successors ∨ t ∈ b.callTargets → known t

/-- The first half of a block leads to the second, which leads where the block did. -/
theorem Block.leads_lasting (lift : LiftFn) : Lasting lift Block.Leads := by
  refine ⟨fun hmono hb t ht => hmono t (hb t ht), fun _ _ hnext => hnext, ?_⟩
  intro known b at_ first second hb hat hs
  constructor
  · intro t ht
    rw [hs.successors_first, hs.callTargets_first] at ht
    rcases ht with ht | ht
    · exact AddrSet.mem_singleton.mp ht ▸ hat
    · cases ht
  · intro t ht
    rw [hs.successors_second, hs.callTargets_second] at ht
    exact hb t ht

/-- **The recovered graph is closed.**  Where a block of a finished exploration leads, or
whom it calls, there starts a block or the address was dropped. -/
theorem explore_edges_closed (hl : LiftFn.InPlace lifter.lift)
    (h : (explore lifter image options entries).result = .ok e) :
    ∀ b ∈ e.store.toList, ∀ t, t ∈ b.successors ∨ t ∈ b.callTargets →
      e.store.contains t = true ∨ t ∈ e.dropped := by
  intro b hb t ht
  obtain ⟨k, hk⟩ := AddrMap.mem_values.mp hb
  have hexplored : t ∈ e.explored :=
    explored_of_explore hl (Block.leads_lasting lifter.lift) h hk t ht
  by_cases hd : t ∈ e.dropped
  · exact Or.inr hd
  · exact Or.inl (Store.mem_starts.mp
      (((consistent_of_explore hl h).starts t).mpr ⟨hexplored, hd⟩))

/-- A lifter that knows two overlapping units. -/
def LiftFn.overlapping : LiftFn := fun a =>
  if a = 16 ∨ a = 18 then .ok (.twoSteps a) else .error (.invalidInstruction a)

theorem LiftFn.overlapping_inPlace : LiftFn.InPlace .overlapping := by
  intro a u h
  rw [LiftFn.overlapping] at h
  split at h
  · cases h
    rfl
  · cases h

theorem explore_overlapping :
    ∃ e, (explore { lift := .overlapping } { arch := .x86_64 } {} [16, 18]).result = .ok e ∧
      e.store.addresses = [16, 18] ∧ e.dropped.toList = [20, 22] ∧
      e.store.toList.map (·.successors.toList) = [[18], [20]] := by
  have hrun : (explore { lift := .overlapping } { arch := .x86_64 } {} [16, 18]).result.map
        (fun e => (e.store.addresses, e.dropped.toList,
          e.store.toList.map (·.successors.toList))) =
      .ok ([16, 18], [20, 22], [[18], [20]]) := by decide +kernel
  obtain ⟨e, he, hall⟩ := Checked.map_eq_ok.mp hrun
  rw [Prod.mk.injEq, Prod.mk.injEq] at hall
  exact ⟨e, he, hall⟩

/-- The second half of a split unit leads behind it, where nothing could be decoded. -/
theorem explore_overlapping_edges :
    ∃ e b, (explore { lift := .overlapping } { arch := .x86_64 } {} [16, 18]).result = .ok e ∧
      b ∈ e.store.toList ∧ 20 ∈ b.successors ∧
      (e.store.contains 20 = true ∨ 20 ∈ e.dropped) := by
  obtain ⟨e, he, -, -, hsuccessors⟩ := explore_overlapping
  have hmem : [20] ∈ e.store.toList.map (·.successors.toList) := by
    rw [hsuccessors]
    exact List.mem_cons_of_mem _ List.mem_cons_self
  obtain ⟨b, hb, hlist⟩ := List.mem_map.mp hmem
  have hsucc : 20 ∈ b.successors := by
    rw [AddrSet.mem_def, hlist]
    exact List.mem_cons_self
  exact ⟨e, b, he, hb, hsucc,
    explore_edges_closed LiftFn.overlapping_inPlace he b hb 20 (Or.inl hsucc)⟩

/-- **Blocks start exactly where lifting succeeded.**  The starts of the blocks of a
finished exploration are the explored addresses that were not dropped; the counters
count them, and no block was ever a duplicate. -/
theorem explore_starts_exact (hl : LiftFn.InPlace lifter.lift)
    (h : (explore lifter image options entries).result = .ok e) :
    (∀ a, a ∈ e.store.addresses ↔ a ∈ e.explored ∧ a ∉ e.dropped) ∧
      e.store.size = e.lifted ∧ e.lifted + e.faults = e.explored.size ∧
      e.faults = e.dropped.size ∧ e.store.duplicates = 0 := by
  have hc := consistent_of_explore hl h
  exact ⟨hc.starts, hc.lifted, hc.total, hc.faults.symm, hc.duplicates⟩

/-- Two overlapping units and the two addresses behind them are four explored addresses. -/
theorem explore_overlapping_starts :
    ∃ e, (explore { lift := .overlapping } { arch := .x86_64 } {} [16, 18]).result = .ok e ∧
      18 ∈ e.explored ∧ e.lifted = 2 ∧ e.faults = 2 ∧ e.explored.size = 4 ∧
      e.store.duplicates = 0 := by
  obtain ⟨e, he, hstored, hdropped, -⟩ := explore_overlapping
  obtain ⟨hstarts, hlifted, htotal, hfaults, hdup⟩ :=
    explore_starts_exact LiftFn.overlapping_inPlace he
  have h18 : 18 ∈ e.explored := ((hstarts 18).mp (by rw [hstored]; decide)).1
  have h2 : e.lifted = 2 := by
    rw [← hlifted, ← Store.size_starts]
    show e.store.addresses.length = 2
    rw [hstored]
    rfl
  have h2' : e.faults = 2 := by
    rw [hfaults]
    show e.dropped.toList.length = 2
    rw [hdropped]
    rfl
  exact ⟨e, he, h18, h2, h2', by omega, hdup⟩

end FlowRecovery
