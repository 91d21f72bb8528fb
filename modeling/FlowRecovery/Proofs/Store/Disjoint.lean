/-
Stored blocks are sound and disjoint.

A block is sound if its last address is a word and its body keeps the contract of
lifted units.  A store is sound if its blocks are, each is found under its own
address, and each ends before the next one starts.

* `Sound.apart_of_overlapping` — looking at the last block that starts below the
  limit of a new one is enough: if that block does not overlap it, none does;
* `Block.Part.inherits` — what splits preserve, all parts of a block have;
* `Sound.of_round`, `Sound.insert` — a round of repair, and hence an insertion that
  succeeds or fails, keeps a store sound;
* `BuiltOf.sound`, `BuiltOf.everywhere` — so every store that is built from classified
  units is sound, and its blocks have what splits preserve.
-/
import FlowRecovery.Block.Classify
import FlowRecovery.Proofs.Store.Rounds
import Mathlib.Order.CompletePartialOrder
import Mathlib.Order.Interval.Set.Disjoint

namespace FlowRecovery

namespace Block

/-- The number of the first address behind the block. -/
def stop (b : Block) : Nat := b.address.toNat + b.size.toNat

/-- The addresses of the block, as numbers. -/
def span (b : Block) : Set Nat := Set.Ico b.address.toNat b.stop

theorem limit_eq_ok {ε : Type} {b : Block} {a : Addr} :
    (b.limit : Checked ε Addr) = .ok a ↔ b.stop = a.toNat :=
  checkedAdd_eq_ok

/-- The block ends at a word and its body keeps the contract. -/
structure Sound (b : Block) : Prop where
  fits : Fits b.address b.size
  checked : b.body.check b.address b.size = .ok ()

namespace Sound

theorem size_pos {b : Block} (h : b.Sound) : 0 < b.size.toNat := by
  have hne : b.size ≠ 0 := (Body.check_eq_ok.mp h.checked).1
  refine Nat.pos_of_ne_zero fun h0 => hne ?_
  exact UInt64.toNat_inj.mp h0

theorem lt_stop {b : Block} (h : b.Sound) : b.address.toNat < b.stop :=
  Nat.lt_add_of_pos_right h.size_pos

theorem of_classified {u : Lifted} {b : Block} (h : Classified u b) : b.Sound :=
  ⟨by rw [h.address, h.size]; exact h.fits, h.checked⟩

/-- The halves of a sound block are sound. -/
theorem splitStable : Store.SplitStable (fun _ => True) Sound := by
  intro b at_ first second hb _ hs
  have hfits : b.address.toNat + b.size.toNat < _ := hb.fits
  have h1 := hs.stop_first
  have h2 := hs.stop_second
  refine ⟨⟨?_, hs.checked_first⟩, ⟨?_, hs.checked_second⟩⟩
  · rw [hs.address_first]
    show b.address.toNat + first.size.toNat < _
    rw [h1]
    exact at_.toNat_lt
  · rw [hs.address_second]
    show at_.toNat + second.size.toNat < _
    rw [h2]
    exact hfits

end Sound

/-- What a block becomes by splitting it, and then its halves, any number of times. -/
inductive Part (b : Block) : Block → Prop where
  | whole : Part b b
  | first {c first second : Block} {at_ : Addr} (hc : Part b c)
      (h : c.split at_ = .ok (first, second)) : Part b first
  | second {c first second : Block} {at_ : Addr} (hc : Part b c)
      (h : c.split at_ = .ok (first, second)) : Part b second

/-- What the halves of a block inherit from it all its parts have. -/
theorem Part.inherits {P : Block → Prop} (hst : Store.SplitStable (fun _ => True) P)
    {b c : Block} (hb : P b) (hc : b.Part c) : P c := by
  induction hc with
  | whole => exact hb
  | first _ h ih => exact (hst ih trivial (halves_of_split h)).1
  | second _ h ih => exact (hst ih trivial (halves_of_split h)).2

/-- The block is made of the unit: it is a part of the unit's block. -/
def From (u : Lifted) (b : Block) : Prop := ∃ whole, classify u = .ok whole ∧ whole.Part b

namespace From

variable {u : Lifted} {b c d : Block} {at_ : Addr}

theorem whole (h : classify u = .ok b) : From u b := ⟨b, h, .whole⟩

theorem first (h : From u b) (hs : b.split at_ = .ok (c, d)) : From u c := by
  obtain ⟨whole, hwhole, hpart⟩ := h
  exact ⟨whole, hwhole, hpart.first hs⟩

theorem second (h : From u b) (hs : b.split at_ = .ok (c, d)) : From u d := by
  obtain ⟨whole, hwhole, hpart⟩ := h
  exact ⟨whole, hwhole, hpart.second hs⟩

/-- What the block of a unit has and splits preserve, every block that is made of it has. -/
theorem inherits {P : Block → Prop} (hst : Store.SplitStable (fun _ => True) P)
    (hP : ∀ whole, classify u = .ok whole → P whole) (h : From u b) : P b := by
  obtain ⟨whole, hwhole, hpart⟩ := h
  exact hpart.inherits hst (hP whole hwhole)

theorem sound (h : From u b) : b.Sound :=
  h.inherits Sound.splitStable fun _ hwhole => .of_classified (classified_of_classify hwhole)

end From

end Block

namespace Store

/-- The blocks of the store are sound, found under their own addresses, and each ends
before the next one starts. -/
structure Sound (s : Store) : Prop where
  keyed : s.Keyed
  blocks : ∀ k b, s.get? k = some b → b.Sound
  apart : ∀ k l b, s.get? k = some b → s.contains l = true → k < l → b.stop ≤ l.toNat

theorem Sound.empty : Sound {} := ⟨nofun, nofun, nofun⟩

/-- A block that the last block below its limit does not overlap is apart from all:
the blocks before that one end even earlier. -/
theorem Sound.apart_of_overlapping {ε : Type} {s : Store} {b : Block} (h : s.Sound)
    (ho : (s.overlapping b : Checked ε _) = .ok none) :
    ∀ k c, s.get? k = some c → c.stop ≤ b.address.toNat ∨ b.stop ≤ k.toNat := by
  obtain ⟨limit, hlimit, ho⟩ := Checked.bind_eq_ok.mp ho
  rw [Block.limit_eq_ok] at hlimit
  intro k c hc
  by_cases hk : k < limit
  · left
    cases hl : s.blocks.lastBelow? limit with
    | none => exact absurd hk (AddrMap.lastBelow?_eq_none hl k c hc)
    | some e =>
      obtain ⟨l, old⟩ := e
      simp only [hl] at ho
      obtain ⟨oldLimit, holdLimit, ho⟩ := Checked.bind_eq_ok.mp ho
      rw [Block.limit_eq_ok] at holdLimit
      obtain ⟨hget, -, hmax⟩ := AddrMap.lastBelow?_eq_some hl
      have hstop : old.stop ≤ b.address.toNat := by
        by_cases hlt : b.address < oldLimit
        · rw [if_pos hlt] at ho
          cases ho
        · rw [UInt64.lt_iff_toNat_lt] at hlt
          omega
      rcases hmax k c hc hk with rfl | hkl
      · obtain rfl : old = c := Option.some.inj (hget.symm.trans hc)
        exact hstop
      · -- A block before the last one below the limit ends before that one starts.
        have hle := h.apart k l c hc (contains_iff.mpr ⟨old, hget⟩) hkl
        have hold := (h.blocks l old hget).lt_stop
        rw [h.keyed l old hget] at hold
        omega
  · right
    rw [UInt64.lt_iff_toNat_lt] at hk
    omega

/-- Taking a block away keeps a store sound. -/
theorem Sound.giveWay {s : Store} (h : s.Sound) (k : Addr) : (s.giveWay k).Sound := by
  refine ⟨?_, ?_, ?_⟩
  · exact fun a c hc => h.keyed a c (get?_of_giveWay hc)
  · exact fun a c hc => h.blocks a c (get?_of_giveWay hc)
  · intro a l c hc hl hal
    exact h.apart a l c (get?_of_giveWay hc) (contains_giveWay.mp hl).2 hal

/-- Keeping a sound block that overlaps no other keeps a store sound. -/
theorem Sound.put {s : Store} {b : Block} (h : s.Sound) (hb : b.Sound)
    (ho : (s.overlapping b : Checked BlockError _) = .ok none) : (s.put b).Sound := by
  have hapart := h.apart_of_overlapping ho
  refine ⟨h.keyed.of_round (@Round.put s b [] ho), ?_, ?_⟩
  · intro k c hc
    rw [get?_put] at hc
    split at hc
    · cases hc
      exact hb
    · exact h.blocks k c hc
  · intro k l c hc hl hkl
    rw [get?_put] at hc
    rw [contains_put] at hl
    have hlt := UInt64.lt_iff_toNat_lt.mp hkl
    split at hc
    · next hk =>
      cases hc
      rcases hl with rfl | hl
      · exact absurd hkl (hk ▸ UInt64.lt_irrefl _)
      · obtain ⟨d, hd⟩ := contains_iff.mp hl
        have hds := (h.blocks l d hd).lt_stop
        rw [h.keyed l d hd] at hds
        rcases hapart l d hd with hle | hle
        · rw [hk] at hlt
          omega
        · exact hle
    · rcases hl with rfl | hl
      · have hcs := (h.blocks k c hc).lt_stop
        have hbs := hb.lt_stop
        rcases hapart k c hc with hle | hle <;> omega
      · exact h.apart k l c hc hl hkl

/-- A round keeps a store sound. -/
theorem Sound.of_round {st st' : Store × List Block} (h : st.1.Sound)
    (hp : ∀ b ∈ st.2, b.Sound) (hr : Round st st') : st'.1.Sound := by
  cases hr with
  | put ho => exact h.put (hp _ List.mem_cons_self) ho
  | duplicate ho => exact ⟨h.keyed, h.blocks, h.apart⟩
  | splitNew ho hk hs => exact h.giveWay _
  | splitOld ho hk hs => exact h.giveWay _

/-- Sound blocks in a sound store and a list of sound ones: all blocks are sound. -/
theorem Sound.everywhere {st : Store × List Block} (h : st.1.Sound) (hp : ∀ b ∈ st.2, b.Sound) :
    Everywhere (fun _ => True) Block.Sound st :=
  ⟨fun k b hb => ⟨h.keyed k b hb, trivial, h.blocks k b hb⟩, fun b hb => ⟨trivial, hp b hb⟩⟩

theorem Sound.of_rounds {st st' : Store × List Block} (h : st.1.Sound)
    (hp : ∀ b ∈ st.2, b.Sound) (hr : Rounds st st') : st'.1.Sound := by
  induction hr with
  | refl => exact h
  | tail hrs hround ih =>
    have hpending := ((h.everywhere hp).of_rounds Block.Sound.splitStable hrs).pending
    exact ih.of_round (fun b hb => (hpending b hb).2) hround

/-- An insertion keeps a store sound, whether it succeeds or fails. -/
theorem Sound.insert {s : Store} {b : Block} (h : s.Sound) (hb : b.Sound) :
    (s.insert b).1.Sound := by
  obtain ⟨left, hr, -⟩ := rounds_of_repair s [b]
  refine Sound.of_rounds h ?_ hr
  exact fun c hc => List.mem_singleton.mp hc ▸ hb

/-- The stores that come about by inserting the blocks of certain units one after the other
into the empty store; insertions that fail count as well. -/
inductive BuiltOf (U : Lifted → Prop) : Store → Prop where
  | empty : BuiltOf U {}
  | insert {s : Store} {u : Lifted} {b : Block} (h : BuiltOf U s) (hu : U u)
      (hb : Block.classify u = .ok b) : BuiltOf U (s.insert b).1

namespace BuiltOf

variable {U : Lifted → Prop} {s : Store}

theorem sound (h : BuiltOf U s) : s.Sound := by
  induction h with
  | empty => exact Sound.empty
  | insert _ _ hb ih => exact ih.insert (.of_classified (Block.classified_of_classify hb))

/-- What holds of the blocks of the units and is kept by splits at their starts holds of all
blocks of the store. -/
theorem everywhere {allowed : Addr → Prop} {P : Block → Prop} (hst : SplitStable allowed P)
    (hP : ∀ u b, U u → Block.classify u = .ok b → allowed b.address ∧ P b) (h : BuiltOf U s) :
    Everywhere allowed P (s, []) := by
  induction h with
  | empty => exact ⟨nofun, nofun⟩
  | insert _ hu hb ih => exact ih.insert hst (hP _ _ hu hb)

end BuiltOf

/-- The stores of any units. -/
abbrev Built : Store → Prop := BuiltOf fun _ => True

theorem Built.empty : Built {} := BuiltOf.empty

theorem Built.insert {s : Store} {u : Lifted} {b : Block} (h : Built s)
    (hb : Block.classify u = .ok b) : Built (s.insert b).1 :=
  BuiltOf.insert h trivial hb

/-- Of two stored blocks, the spans have no address in common. -/
theorem Sound.disjoint_span {s : Store} {b c : Block} {k l : Addr} (h : s.Sound)
    (hb : s.get? k = some b) (hc : s.get? l = some c) (hkl : k ≠ l) : Disjoint b.span c.span := by
  have hbk := h.keyed k b hb
  have hcl := h.keyed l c hc
  rw [Block.span, Block.span, Set.Ico_disjoint_Ico, hbk, hcl]
  rcases UInt64.lt_or_lt_of_ne hkl with hlt | hlt
  · have hle := h.apart k l b hb (contains_iff.mpr ⟨c, hc⟩) hlt
    omega
  · have hle := h.apart l k c hc (contains_iff.mpr ⟨b, hb⟩) hlt
    omega

/-- **A built store is an ordered set of disjoint blocks.**  Every block is found under
its own address, is not empty, ends at a word and keeps the contract of lifted units;
and no two blocks have an address in common. -/
theorem Built.blocks_disjoint {s : Store} (h : Built s) :
    (∀ k b, s.get? k = some b → b.address = k ∧ 0 < b.size ∧ Fits b.address b.size ∧
      b.body.verify b.address b.size = .ok ()) ∧
    (∀ k l b c, s.get? k = some b → s.get? l = some c → k ≠ l → Disjoint b.span c.span) := by
  have hs := h.sound
  constructor
  · intro k b hb
    have hsound := hs.blocks k b hb
    refine ⟨hs.keyed k b hb, ?_, hsound.fits, Body.verify_eq_ok.mpr hsound.checked⟩
    exact UInt64.lt_iff_toNat_lt.mpr hsound.size_pos
  · intro k l b c hb hc hkl
    exact hs.disjoint_span hb hc hkl

end Store

/-- A unit of two instructions of two bytes each that goes on behind them. -/
def Lifted.twoSteps (a : Addr) : Lifted :=
  { address := a, size := 4, kind := .fallthrough
    body := { insts := [.setPc a, .setPc (a + 2), .branch (.pc (a + 4)), .exit], nextTemp := 0 } }

/-- The block of that unit. -/
def Block.twoSteps (a : Addr) : Block :=
  { address := a, size := 4, kind := .fallthrough, successors := .singleton (a + 4)
    body := { insts := [.marker a, .setPc a, .marker (a + 2), .setPc (a + 2),
                .branch (.pc (a + 4)), .exit], nextTemp := 0 } }

/-- The second of two overlapping units splits the first one, and the halves are apart. -/
theorem Store.built_overlapping_units :
    ∃ (s : Store) (b c : Block), Built s ∧ s.splits = 1 ∧ s.get? 16 = some b ∧
      s.get? 18 = some c ∧ Disjoint b.span c.span := by
  have h16 : Block.classify (.twoSteps 16) = .ok (.twoSteps 16) := by decide
  have h18 : Block.classify (.twoSteps 18) = .ok (.twoSteps 18) := by decide
  have hbuilt := (Built.empty.insert h16).insert h18
  have hin : (((({} : Store).insert (.twoSteps 16)).1).insert (.twoSteps 18)).1.addresses =
      [16, 18] := by decide +kernel
  obtain ⟨b, hb⟩ := contains_iff.mp (AddrMap.mem_keys.mp (hin ▸ List.mem_cons_self))
  obtain ⟨c, hc⟩ := contains_iff.mp
    (AddrMap.mem_keys.mp (hin ▸ List.mem_cons_of_mem 16 List.mem_cons_self))
  exact ⟨_, b, c, hbuilt, by decide +kernel, hb, hc,
    hbuilt.blocks_disjoint.2 16 18 b c hb hc (by decide)⟩

end FlowRecovery
