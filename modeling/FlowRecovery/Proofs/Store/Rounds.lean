/-
The rounds of a repair.

`Round` lists what one round of `Store.repair` can do to the store and to the
pending blocks, and `rounds_of_repair` says that a repair is a sequence of such
rounds, after which nothing is pending unless it failed.  What holds of every
insertion is then shown of one round:

* `Everywhere.of_round` — a property that splits preserve stays with all blocks;
* `Round.begins_iff` — no start is lost and none is invented;
* `Fresh.of_round` — distinct fresh starts never meet a duplicate.

`Everywhere.insert`, `starts_insert` and `duplicates_insert` are what follows for
`Store.insert`.
-/
import FlowRecovery.Store
import Mathlib.Logic.Relation

namespace FlowRecovery.Store

/-- One round of a repair: the first pending block is kept, dropped, or one of two
overlapping blocks is split where the other starts. -/
inductive Round : Store × List Block → Store × List Block → Prop where
  | put {s : Store} {b : Block} {rest : List Block}
      (ho : (s.overlapping b : Checked BlockError _) = .ok none) :
      Round (s, b :: rest) (s.put b, rest)
  | duplicate {s : Store} {b old : Block} {rest : List Block}
      (ho : (s.overlapping b : Checked BlockError _) = .ok (some (b.address, old))) :
      Round (s, b :: rest) (s.noteDuplicate, rest)
  | splitNew {s : Store} {b old first second : Block} {k : Addr} {rest : List Block}
      (ho : (s.overlapping b : Checked BlockError _) = .ok (some (k, old)))
      (hk : b.address < k) (hs : b.split k = .ok (first, second)) :
      Round (s, b :: rest) (s.giveWay k, first :: second :: rest)
  | splitOld {s : Store} {b old first second : Block} {k : Addr} {rest : List Block}
      (ho : (s.overlapping b : Checked BlockError _) = .ok (some (k, old)))
      (hk : k < b.address) (hs : old.split b.address = .ok (first, second)) :
      Round (s, b :: rest) (s.giveWay k, first :: second :: rest)

/-- Any number of rounds. -/
abbrev Rounds : Store × List Block → Store × List Block → Prop := Relation.ReflTransGen Round

/-- A repair is a sequence of rounds; one that succeeds leaves nothing pending. -/
theorem rounds_of_repair (s : Store) (pending : List Block) :
    ∃ left, Rounds (s, pending) ((s.repair pending).1, left) ∧
      ((s.repair pending).2 = .ok () → left = []) := by
  fun_induction Store.repair s pending with
  | case1 s => exact ⟨[], .refl, fun _ => rfl⟩
  | case2 s b rest e ho => exact ⟨b :: rest, .refl, nofun⟩
  | case3 s b rest ho ih =>
    obtain ⟨left, hr, hl⟩ := ih
    exact ⟨left, hr.head (.put ho), hl⟩
  | case4 s b rest old ho ih =>
    obtain ⟨left, hr, hl⟩ := ih
    exact ⟨left, hr.head (.duplicate ho), hl⟩
  | case5 s b rest k old ho hne hlt e hs => exact ⟨b :: rest, .refl, nofun⟩
  | case6 s b rest k old ho hne hlt first second hs ih =>
    obtain ⟨left, hr, hl⟩ := ih
    exact ⟨left, hr.head (.splitNew ho hlt hs), hl⟩
  | case7 s b rest k old ho hne hlt e hs => exact ⟨b :: rest, .refl, nofun⟩
  | case8 s b rest k old ho hne hlt first second hs ih =>
    obtain ⟨left, hr, hl⟩ := ih
    exact ⟨left, hr.head (.splitOld ho (by grind) hs), hl⟩

/-! ### Look-ups after a round -/

@[simp] theorem get?_put (s : Store) (b : Block) (a : Addr) :
    (s.put b).get? a = if a = b.address then some b else s.get? a :=
  AddrMap.get?_insert s.blocks b.address a b

@[simp] theorem get?_giveWay (s : Store) (k a : Addr) :
    (s.giveWay k).get? a = if a = k then none else s.get? a :=
  AddrMap.get?_erase s.blocks k a

/-- What is found after a block has given way was there before. -/
theorem get?_of_giveWay {s : Store} {k a : Addr} {b : Block}
    (h : (s.giveWay k).get? a = some b) : s.get? a = some b := by
  rw [get?_giveWay] at h
  split at h
  · cases h
  · exact h

theorem contains_iff {s : Store} {a : Addr} : s.contains a = true ↔ ∃ b, s.get? a = some b :=
  Option.isSome_iff_exists

theorem contains_put {s : Store} {b : Block} {a : Addr} :
    (s.put b).contains a = true ↔ a = b.address ∨ s.contains a = true := by
  rw [contains_iff, contains_iff, get?_put]
  by_cases h : a = b.address <;> simp [h]

theorem contains_giveWay {s : Store} {k a : Addr} :
    (s.giveWay k).contains a = true ↔ a ≠ k ∧ s.contains a = true := by
  rw [contains_iff, contains_iff, get?_giveWay]
  by_cases h : a = k <;> simp [h]

theorem get?_of_overlapping {ε : Type} {s : Store} {b old : Block} {k : Addr}
    (h : (s.overlapping b : Checked ε _) = .ok (some (k, old))) : s.get? k = some old :=
  AddrMap.mem_entries_iff.mp (mem_of_overlapping h)

theorem contains_of_overlapping {ε : Type} {s : Store} {b old : Block} {k : Addr}
    (h : (s.overlapping b : Checked ε _) = .ok (some (k, old))) : s.contains k = true :=
  contains_iff.mpr ⟨old, get?_of_overlapping h⟩

/-! ### Properties of all blocks -/

/-- Every stored block is found under its own address. -/
def Keyed (s : Store) : Prop := ∀ k b, s.get? k = some b → b.address = k

/-- Splitting a block with the property, at an address that is allowed, yields two
blocks with the property. -/
def SplitStable (allowed : Addr → Prop) (P : Block → Prop) : Prop :=
  ∀ {b : Block} {at_ : Addr} {first second : Block}, P b → allowed at_ →
    b.Halves at_ first second → P first ∧ P second

/-- All blocks, stored or pending, start at allowed addresses and have the property,
and the stored ones are found under their own addresses. -/
structure Everywhere (allowed : Addr → Prop) (P : Block → Prop) (st : Store × List Block) :
    Prop where
  stored : ∀ k b, st.1.get? k = some b → b.address = k ∧ allowed k ∧ P b
  pending : ∀ b ∈ st.2, allowed b.address ∧ P b

variable {allowed : Addr → Prop} {P : Block → Prop}

theorem Everywhere.keyed {st : Store × List Block} (h : Everywhere allowed P st) : st.1.Keyed :=
  fun k b hb => (h.stored k b hb).1

theorem Everywhere.tail {s : Store} {b : Block} {rest : List Block}
    (h : Everywhere allowed P (s, b :: rest)) : Everywhere allowed P (s, rest) :=
  ⟨h.stored, fun c hc => h.pending c (List.mem_cons_of_mem _ hc)⟩

theorem Everywhere.giveWay {s : Store} {b first second : Block} {k at_ : Addr}
    {rest : List Block} (hst : SplitStable allowed P)
    (h : Everywhere allowed P (s, rest)) (hb : allowed b.address ∧ P b) (hat : allowed at_)
    (hs : b.Halves at_ first second) :
    Everywhere allowed P (s.giveWay k, first :: second :: rest) := by
  obtain ⟨hp1, hp2⟩ := hst hb.2 hat hs
  constructor
  · intro a c hc
    exact h.stored a c (get?_of_giveWay hc)
  · intro c hc
    rcases List.mem_cons.mp hc with rfl | hc
    · exact ⟨hs.address_first ▸ hb.1, hp1⟩
    · rcases List.mem_cons.mp hc with rfl | hc
      · exact ⟨hs.address_second ▸ hat, hp2⟩
      · exact h.pending c hc

/-- A round keeps what splits preserve. -/
theorem Everywhere.of_round {st st' : Store × List Block} (hst : SplitStable allowed P)
    (h : Everywhere allowed P st) (hr : Round st st') : Everywhere allowed P st' := by
  cases hr with
  | @put s b rest ho =>
    refine ⟨fun k c hc => ?_, h.tail.pending⟩
    rw [get?_put] at hc
    split at hc
    · next hk =>
      cases hc
      exact ⟨hk.symm, hk ▸ h.pending b List.mem_cons_self⟩
    · exact h.stored k c hc
  | @duplicate s b old rest ho => exact ⟨h.stored, h.tail.pending⟩
  | @splitNew s b old first second k rest ho hk hs =>
    obtain ⟨-, hallowed, -⟩ := h.stored k old (get?_of_overlapping ho)
    exact h.tail.giveWay hst (h.pending b List.mem_cons_self) hallowed (Block.halves_of_split hs)
  | @splitOld s b old first second k rest ho hk hs =>
    obtain ⟨rfl, hold⟩ := h.stored k old (get?_of_overlapping ho)
    exact h.tail.giveWay hst hold (h.pending b List.mem_cons_self).1 (Block.halves_of_split hs)

theorem Everywhere.of_rounds {st st' : Store × List Block} (hst : SplitStable allowed P)
    (h : Everywhere allowed P st) (hr : Rounds st st') : Everywhere allowed P st' := by
  induction hr with
  | refl => exact h
  | tail _ hround ih => exact ih.of_round hst hround

/-- What splits preserve stays with all blocks when one is inserted, also when the
insertion fails. -/
theorem Everywhere.insert {s : Store} {b : Block} (hst : SplitStable allowed P)
    (h : Everywhere allowed P (s, [])) (hb : allowed b.address ∧ P b) :
    Everywhere allowed P ((s.insert b).1, []) := by
  have hstart : Everywhere allowed P (s, [b]) :=
    ⟨h.stored, fun c hc => List.mem_singleton.mp hc ▸ hb⟩
  obtain ⟨left, hr, -⟩ := rounds_of_repair s [b]
  exact ⟨(hstart.of_rounds hst hr).stored, nofun⟩

/-! ### Where blocks start -/

/-- Whether a block starts at the address, be it stored or pending. -/
def Begins (st : Store × List Block) (a : Addr) : Prop :=
  st.1.contains a = true ∨ ∃ b ∈ st.2, b.address = a

/-- A round loses no start and invents none. -/
theorem Round.begins_iff {st st' : Store × List Block} (hk : st.1.Keyed) (hr : Round st st')
    (a : Addr) : Begins st' a ↔ Begins st a := by
  cases hr with
  | @put s b rest ho =>
    simp only [Begins, contains_put, List.mem_cons, exists_eq_or_imp]
    grind
  | @duplicate s b old rest ho =>
    have hc : s.contains b.address = true := contains_of_overlapping ho
    have hd : s.noteDuplicate.contains a = s.contains a := rfl
    simp only [Begins, hd, List.mem_cons, exists_eq_or_imp]
    grind
  | @splitNew s b old first second k rest ho hlt hs =>
    -- The second half starts where the block that gives way did, and puts it back.
    have hc : s.contains k = true := contains_of_overlapping ho
    have hv := Block.halves_of_split hs
    simp only [Begins, contains_giveWay, List.mem_cons, exists_eq_or_imp, hv.address_first,
      hv.address_second]
    grind
  | @splitOld s b old first second k rest ho hlt hs =>
    -- Here the first half does, since the block that gives way is found under its start.
    have hc : s.contains k = true := contains_of_overlapping ho
    have hv := Block.halves_of_split hs
    have hkey : old.address = k := hk k old (get?_of_overlapping ho)
    simp only [Begins, contains_giveWay, List.mem_cons, exists_eq_or_imp, hv.address_first,
      hv.address_second, hkey]
    grind

theorem Keyed.of_round {st st' : Store × List Block} (h : st.1.Keyed) (hr : Round st st') :
    st'.1.Keyed := by
  have hall : Everywhere (fun _ => True) (fun _ => True) st :=
    ⟨fun k b hb => ⟨h k b hb, trivial, trivial⟩, fun _ _ => ⟨trivial, trivial⟩⟩
  exact (hall.of_round (fun _ _ _ => ⟨trivial, trivial⟩) hr).keyed

theorem Rounds.begins_iff {st st' : Store × List Block} (hk : st.1.Keyed) (hr : Rounds st st')
    (a : Addr) : st'.1.Keyed ∧ (Begins st' a ↔ Begins st a) := by
  induction hr with
  | refl => exact ⟨hk, Iff.rfl⟩
  | tail _ hround ih => exact ⟨ih.1.of_round hround, (hround.begins_iff ih.1 a).trans ih.2⟩

/-- No two pending blocks start at one address, and none starts where a stored one does. -/
structure Fresh (st : Store × List Block) : Prop where
  keyed : st.1.Keyed
  nodup : (st.2.map (·.address)).Nodup
  apart : ∀ b ∈ st.2, ¬ st.1.contains b.address = true

/-- A split takes the place of a stored block whose key becomes the start of a half, so
fresh starts stay fresh. -/
theorem Fresh.giveWay {s : Store} {b first second : Block} {k : Addr} {rest : List Block}
    (h : Fresh (s, b :: rest)) (hk : s.contains k = true)
    (hstarts : (first.address = b.address ∧ second.address = k) ∨
      (first.address = k ∧ second.address = b.address)) :
    Fresh (s.giveWay k, first :: second :: rest) := by
  have hkeyed : (s.giveWay k).Keyed := fun a c hc => h.keyed a c (get?_of_giveWay hc)
  have hnodup := h.nodup
  have hapart := h.apart
  simp only [List.map_cons, List.nodup_cons, List.mem_map, not_exists, not_and] at hnodup
  have hkrest : ∀ c ∈ rest, c.address ≠ k := by
    rintro c hc rfl
    exact hapart c (List.mem_cons_of_mem _ hc) hk
  have hkb : b.address ≠ k := by
    rintro rfl
    exact hapart b List.mem_cons_self hk
  refine ⟨hkeyed, ?_, ?_⟩
  · simp only [List.map_cons, List.nodup_cons, List.mem_cons, List.mem_map, not_or, not_exists,
      not_and]
    rcases hstarts with ⟨h1, h2⟩ | ⟨h1, h2⟩
    · rw [h1, h2]
      exact ⟨⟨hkb, hnodup.1⟩, hkrest, hnodup.2⟩
    · rw [h1, h2]
      exact ⟨⟨hkb.symm, hkrest⟩, hnodup.1, hnodup.2⟩
  · intro c hc
    rw [contains_giveWay]
    rintro ⟨hne, hin⟩
    rcases List.mem_cons.mp hc with rfl | hc
    · rcases hstarts with ⟨h1, -⟩ | ⟨h1, -⟩
      · exact hapart b List.mem_cons_self (h1 ▸ hin)
      · exact hne h1
    · rcases List.mem_cons.mp hc with rfl | hc
      · rcases hstarts with ⟨-, h2⟩ | ⟨-, h2⟩
        · exact hne h2
        · exact hapart b List.mem_cons_self (h2 ▸ hin)
      · exact hapart c (List.mem_cons_of_mem _ hc) hin

/-- Fresh starts stay fresh, and none is a duplicate. -/
theorem Fresh.of_round {st st' : Store × List Block} (h : Fresh st) (hr : Round st st') :
    Fresh st' ∧ st'.1.duplicates = st.1.duplicates := by
  cases hr with
  | @put s b rest ho =>
    have hnodup := h.nodup
    simp only [List.map_cons, List.nodup_cons, List.mem_map, not_exists, not_and] at hnodup
    refine ⟨⟨h.keyed.of_round (@Round.put s b rest ho), hnodup.2, fun c hc => ?_⟩, rfl⟩
    rw [contains_put]
    rintro (hcb | hin)
    · exact hnodup.1 c hc hcb
    · exact h.apart c (List.mem_cons_of_mem _ hc) hin
  | @duplicate s b old rest ho =>
    exact absurd (contains_of_overlapping ho) (h.apart b List.mem_cons_self)
  | @splitNew s b old first second k rest ho hlt hs =>
    have hv := Block.halves_of_split hs
    have hin : s.contains k = true := contains_of_overlapping ho
    exact ⟨h.giveWay hin (Or.inl ⟨hv.address_first, hv.address_second⟩), rfl⟩
  | @splitOld s b old first second k rest ho hlt hs =>
    have hv := Block.halves_of_split hs
    have hin : s.contains k = true := contains_of_overlapping ho
    have hkey : old.address = k := h.keyed k old (get?_of_overlapping ho)
    exact ⟨h.giveWay hin (Or.inr ⟨hv.address_first.trans hkey, hv.address_second⟩), rfl⟩

theorem Fresh.of_rounds {st st' : Store × List Block} (h : Fresh st) (hr : Rounds st st') :
    Fresh st' ∧ st'.1.duplicates = st.1.duplicates := by
  induction hr with
  | refl => exact ⟨h, rfl⟩
  | tail _ hround ih =>
    obtain ⟨hf, hd⟩ := ih.1.of_round hround
    exact ⟨hf, hd.trans ih.2⟩

/-! ### What an insertion does to the starts -/

/-- The set of addresses where stored blocks start. -/
def starts (s : Store) : AddrSet := ⟨s.addresses, s.blocks.keys_pairwise⟩

theorem mem_starts {s : Store} {a : Addr} : a ∈ s.starts ↔ s.contains a = true := AddrMap.mem_keys

theorem size_starts (s : Store) : s.starts.size = s.size := by
  show (s.blocks.entries.map (·.1)).length = s.blocks.entries.length
  exact List.length_map _

/-- An insertion that succeeds adds the start of the block and no other. -/
theorem starts_insert {s : Store} {b : Block} (hk : s.Keyed) (h : (s.insert b).2 = .ok ()) :
    (s.insert b).1.starts = s.starts.insert b.address := by
  obtain ⟨left, hr, hl⟩ := rounds_of_repair s [b]
  obtain rfl := hl h
  refine AddrSet.ext fun a => ?_
  have hiff := (Rounds.begins_iff hk hr a).2
  simp only [Begins, List.not_mem_nil, false_and, exists_false, or_false, List.mem_singleton,
    exists_eq_left] at hiff
  rw [mem_starts, AddrSet.mem_insert, mem_starts, or_comm, eq_comm (a := a)]
  exact hiff

/-- A block whose start is new meets no duplicate. -/
theorem duplicates_insert {s : Store} {b : Block} (hk : s.Keyed)
    (hb : ¬ s.contains b.address = true) : (s.insert b).1.duplicates = s.duplicates := by
  have hfresh : Fresh (s, [b]) :=
    ⟨hk, by simp, fun c hc => List.mem_singleton.mp hc ▸ hb⟩
  obtain ⟨left, hr, -⟩ := rounds_of_repair s [b]
  exact (hfresh.of_rounds hr).2

end FlowRecovery.Store
