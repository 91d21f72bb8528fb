/-
The arithmetic of addresses is safe once units are classified.

A classification is the one place where a sum of addresses can leave the words.  From there on
every block ends at a word, its markers increase and lie inside it; splits and repairs keep this,
so that nothing that is computed from a block or a store overflows or cuts code out of order.

* `classify_eq_overflow` — when a classification overflows;
* `Block.Derived` — the blocks of units and their halves, and the halves of these;
* `Block.Sound.inBounds` — what is computed from a sound block;
* `Store.Sound.inBounds` — what is computed from a sound store;
* `Store.Built.arithmetic_safe` — so it is for every built store, and in every state that an
  insertion goes through.
-/
import FlowRecovery.Proofs.Assembly.Assembled
import FlowRecovery.Proofs.Store.Halting
import FlowRecovery.Proofs.Store.Total

namespace FlowRecovery

open Checked (Succeeds)

theorem Checked.lift_ne_overflow {ε α : Type} {x : Except ε α} :
    Checked.lift x ≠ .error .overflow := by
  cases x <;> nofun

namespace Block

/-- A classification overflows exactly if the unit ends behind the last word. -/
theorem classify_eq_overflow {u : Lifted} :
    classify u = .error .overflow ↔ ¬ Fits u.address u.size := by
  constructor
  · intro h hfits
    simp only [classify, checkedAdd, if_pos hfits, bind, Except.bind] at h
    -- Behind the sum, units are refused, and never for an overflow.
    split at h
    · cases h
    · split at h
      · cases h
      · next body _ =>
        cases hverify :
          Checked.lift ((body.verify u.address u.size).mapError BlockError.verify) with
        | error e =>
          rw [hverify] at h
          cases h
          exact Checked.lift_ne_overflow hverify
        | ok _ =>
          rw [hverify] at h
          cases h
  · intro hfits
    rw [classify, checkedAdd, if_neg hfits]
    rfl

/-- The blocks that come about from units: their own blocks, and the halves of any such block. -/
def Derived (b : Block) : Prop := ∃ u, b.From u

theorem Derived.sound {b : Block} (h : b.Derived) : b.Sound := by
  obtain ⟨u, hu⟩ := h
  exact hu.sound

/-- What is computed from the block comes out: the words stay in their range, and the places of
its markers are in its code and in order. -/
structure InBounds (ε : Type) (b : Block) : Prop where
  limit : ∃ l, (b.limit : Checked ε Addr) = .ok l ∧ l.toNat = b.stop
  contains : ∀ a, (b.contains a : Checked ε Bool) =
    .ok (decide (b.address.toNat ≤ a.toNat ∧ a.toNat < b.stop))
  instructionAt : ∀ a, Succeeds (b.instructionAt a : Checked ε (Option Addr))
  isImportStub : Succeeds (b.isImportStub : Checked ε Bool)
  stubSlot : Succeeds (b.stubSlot : Checked ε (Option Addr))
  boundary : ∀ pc n, b.boundaries.get? pc = some n →
    b.address.toNat ≤ pc.toNat ∧ pc.toNat < b.stop ∧ n < b.body.insts.length
  ordered : b.boundaries.values.Pairwise (· < ·)
  split : ∀ at_, (∃ halves, b.split at_ = .ok halves) ∨
    b.split at_ = .error (.refused (.notSplittable b.address at_))

variable {ε : Type} {b : Block}

theorem Sound.limit_eq (h : b.Sound) :
    ∃ l, (b.limit : Checked ε Addr) = .ok l ∧ l.toNat = b.stop := by
  obtain ⟨l, hl⟩ := h.succeeds_limit (ε := ε)
  exact ⟨l, hl, (limit_eq_ok.mp hl).symm⟩

theorem Sound.contains_eq (h : b.Sound) (a : Addr) : (b.contains a : Checked ε Bool) =
    .ok (decide (b.address.toNat ≤ a.toNat ∧ a.toNat < b.stop)) := by
  obtain ⟨l, hl, hstop⟩ := h.limit_eq (ε := ε)
  rw [Block.contains, hl, ← hstop]
  by_cases hlt : a < b.address
  · rw [if_pos hlt]
    rw [UInt64.lt_iff_toNat_lt] at hlt
    rw [decide_eq_false (by omega)]
  · rw [if_neg hlt]
    rw [UInt64.lt_iff_toNat_lt] at hlt
    have hiff : a < l ↔ b.address.toNat ≤ a.toNat ∧ a.toNat < l.toNat := by
      rw [UInt64.lt_iff_toNat_lt]
      omega
    exact congrArg Except.ok (decide_eq_decide.mpr hiff)

/-- A boundary of a sound block is an address of the block, and its marker is in the code. -/
theorem Sound.boundary_inside (h : b.Sound) {pc : Addr} {n : Nat}
    (hn : b.boundaries.get? pc = some n) :
    b.address.toNat ≤ pc.toNat ∧ pc.toNat < b.stop ∧ n < b.body.insts.length := by
  have hmem : pc ∈ markers b.body.insts :=
    h.mem_markers.mp (Option.isSome_iff_exists.mpr ⟨n, hn⟩)
  obtain ⟨hle, hlt⟩ := h.lawful.inside pc hmem
  obtain ⟨pre, post, hcut, rfl⟩ := Body.exists_cut h.lawful.increasing hn
  rw [UInt64.le_iff_toNat_le] at hle
  rw [UInt64.lt_iff_toNat_lt, toNat_saturatingAdd] at hlt
  have hfits : b.address.toNat + b.size.toNat < _ := h.fits
  refine ⟨hle, ?_, ?_⟩
  · show pc.toNat < b.address.toNat + b.size.toNat
    omega
  · rw [hcut, List.length_append, List.length_cons]
    omega

theorem Sound.inBounds (h : b.Sound) : b.InBounds ε where
  limit := h.limit_eq
  contains := h.contains_eq
  instructionAt := h.succeeds_instructionAt
  isImportStub := h.succeeds_isImportStub
  stubSlot := h.succeeds_stubSlot
  boundary _ _ hn := h.boundary_inside hn
  ordered := h.pairwise_values
  split at_ := by
    cases hs : b.split at_ with
    | ok halves => exact Or.inl ⟨halves, rfl⟩
    | error e => exact Or.inr (congrArg Except.error (h.split_eq_error hs).1)

end Block

namespace Store

variable {ε : Type} {s : Store}

/-- What is computed from the store comes out, and so does what is computed from its blocks. -/
structure InBounds (ε : Type) (s : Store) : Prop where
  blocks : ∀ k b, s.get? k = some b → b.InBounds ε
  findContaining : ∀ a, Succeeds (s.findContaining a : Checked ε (Option Block))
  overlapping : ∀ b, b.Derived → Succeeds (s.overlapping b : Checked ε (Option (Addr × Block)))
  insert : ∀ b, b.Derived → (s.insert b).2 = .ok () ∨
    ∃ a at_, (s.insert b).2 = .error (.refused (.notSplittable a at_))
  entries : Succeeds (s.entries : Checked ε (List Addr))
  layout : ∀ naming entries entry,
    (s.contains entry = true ∧ ∃ l, s.layout naming entries entry = .ok l ∧
      l.blocks = (s.closure entries entry).toList ∧
      IsGreatest {n | ∃ a ∈ l.blocks, ∃ b, s.get? a = some b ∧ b.stop = n} l.high.toNat) ∨
    (s.contains entry = false ∧
      s.layout naming entries entry = .error (.refused (.unknownEntry entry)))

/-- The greatest limit of sound blocks is that of one of them, or the least that is asked for. -/
theorem foldlM_limit {bs : List Block} (h : ∀ b ∈ bs, b.Sound) (least : Addr) :
    ∃ high, (bs.foldlM (fun high b => b.limit.map (max high)) least : Checked ε Addr) = .ok high ∧
      least.toNat ≤ high.toNat ∧ (∀ b ∈ bs, b.stop ≤ high.toNat) ∧
      (high = least ∨ ∃ b ∈ bs, b.stop = high.toNat) := by
  induction bs generalizing least with
  | nil => exact ⟨least, rfl, Nat.le_refl _, nofun, Or.inl rfl⟩
  | cons b bs ih =>
    obtain ⟨l, hl, hstop⟩ := (h b List.mem_cons_self).limit_eq (ε := ε)
    obtain ⟨high, hhigh, hle, hall, hone⟩ :=
      ih (fun c hc => h c (List.mem_cons_of_mem b hc)) (max least l)
    rw [UInt64.toNat_max, hstop] at hle
    refine ⟨high, ?_, by omega, ?_, ?_⟩
    · rw [List.foldlM_cons, hl]
      exact hhigh
    · intro c hc
      rcases List.mem_cons.mp hc with rfl | hc
      · omega
      · exact hall c hc
    · rcases hone with hmax | ⟨c, hc, hstop'⟩
      · by_cases hl : least ≤ l
        · refine Or.inr ⟨b, List.mem_cons_self, ?_⟩
          rw [hmax, UInt64.toNat_max, hstop]
          rw [UInt64.le_iff_toNat_le] at hl
          omega
        · left
          rw [hmax]
          exact if_neg hl
      · exact Or.inr ⟨c, List.mem_cons_of_mem b hc, hstop'⟩

/-- A layout has the closure of its entry, and ends where the last of these blocks does. -/
theorem Sound.layout_of_contains (h : s.Sound) (naming : Naming) (entries : AddrSet) {entry : Addr}
    (hentry : s.contains entry = true) :
    ∃ l, s.layout naming entries entry = .ok l ∧ l.blocks = (s.closure entries entry).toList ∧
      IsGreatest {n | ∃ a ∈ l.blocks, ∃ b, s.get? a = some b ∧ b.stop = n} l.high.toNat := by
  obtain ⟨first, hfirst⟩ := contains_iff.mp hentry
  have hmem : entry ∈ (s.closure entries entry).toList := entry_mem_closure hfirst
  have hsound : ∀ b ∈ (s.closure entries entry).toList.filterMap s.get?, b.Sound := by
    intro b hb
    obtain ⟨a, -, ha⟩ := List.mem_filterMap.mp hb
    exact h.blocks a b ha
  obtain ⟨high, hhigh, -, hall, hone⟩ := foldlM_limit (ε := AssembleError) hsound 0
  cases hblocks : (s.closure entries entry).toList with
  | nil =>
    rw [hblocks] at hmem
    cases hmem
  | cons low rest =>
    have hlayout : s.layout naming entries entry = .ok
        { entry, name := naming.name entry, blocks := low :: rest, low, high } := by
      rw [layout]
      simp only [hblocks]
      rw [hblocks] at hhigh
      rw [highest, hhigh]
      rfl
    refine ⟨_, hlayout, rfl, ?_, ?_⟩
    · show ∃ a ∈ low :: rest, ∃ b, s.get? a = some b ∧ b.stop = high.toNat
      rw [← hblocks]
      rcases hone with rfl | ⟨b, hb, hstop⟩
      · -- The first block of the function ends behind the least address.
        have hle := hall first (List.mem_filterMap.mpr ⟨entry, hmem, hfirst⟩)
        have hpos := (h.blocks entry first hfirst).lt_stop
        exact absurd hle (by show ¬ first.stop ≤ 0; omega)
      · obtain ⟨a, ha, hget⟩ := List.mem_filterMap.mp hb
        exact ⟨a, ha, b, hget, hstop⟩
    · rintro n ⟨a, ha, b, hget, rfl⟩
      rw [← hblocks] at ha
      exact hall b (List.mem_filterMap.mpr ⟨a, ha, hget⟩)

theorem layout_of_not_contains (naming : Naming) (entries : AddrSet) {entry : Addr}
    (hentry : s.contains entry = false) :
    s.layout naming entries entry = .error (.refused (.unknownEntry entry)) := by
  have hnone : s.get? entry = none := Option.isNone_iff_eq_none.mp (by
    rw [← Option.not_isSome]
    exact congrArg not hentry)
  have hblocks : (s.closure entries entry).toList = [] :=
    List.eq_nil_iff_forall_not_mem.mpr fun a ha => not_mem_closure hnone ha
  rw [layout]
  simp only [hblocks]
  rfl

theorem Sound.inBounds (h : s.Sound) : s.InBounds ε where
  blocks k b hb := (h.blocks k b hb).inBounds
  findContaining := h.succeeds_findContaining
  overlapping _ hb := h.succeeds_overlapping hb.sound
  insert b hb := by
    cases hi : (s.insert b).2 with
    | ok _ => exact Or.inl rfl
    | error e =>
      obtain ⟨a, at_, rfl⟩ := h.insert_eq_error hb.sound hi
      exact Or.inr ⟨a, at_, rfl⟩
  entries := by
    obtain ⟨l, hl, -⟩ := h.succeeds_entries (ε := ε)
    exact ⟨l, hl⟩
  layout naming entries entry := by
    cases hentry : s.contains entry with
    | true => exact Or.inl ⟨rfl, h.layout_of_contains naming entries hentry⟩
    | false => exact Or.inr ⟨rfl, layout_of_not_contains naming entries hentry⟩

/-- In all states that the insertion of a sound block goes through, the store and what is still
pending are sound. -/
theorem Sound.of_course {b : Block} {st : Store × List Block} (h : s.Sound) (hb : b.Sound)
    (hr : Rounds (s, [b]) st) : st.1.Sound ∧ ∀ c ∈ st.2, c.Sound := by
  have hp : ∀ c ∈ [b], c.Sound := fun c hc => List.mem_singleton.mp hc ▸ hb
  have hstart : Everywhere (fun _ => True) Block.Sound (s, [b]) := Sound.everywhere h hp
  refine ⟨Sound.of_rounds h hp hr, fun c hc => ?_⟩
  exact ((hstart.of_rounds Block.Sound.splitStable hr).pending c hc).2

/-- **After classification no address arithmetic fails.**  A classification overflows exactly if
the unit ends behind the last word.  What is computed from a built store, from the blocks in it,
and from the blocks of units and all their halves stays in its range; and so does what is
computed from the store and the pending blocks in every state that an insertion goes through. -/
theorem Built.arithmetic_safe (h : Built s) (ε : Type) :
    (∀ u, Block.classify u = .error .overflow ↔ ¬ Fits u.address u.size) ∧
    s.InBounds ε ∧ (∀ b : Block, b.Derived → b.InBounds ε) ∧
    ∀ (b : Block) (st : Store × List Block), b.Derived → Rounds (s, [b]) st →
      st.1.InBounds ε ∧ ∀ c ∈ st.2, c.InBounds ε ∧
        Succeeds (st.1.overlapping c : Checked ε (Option (Addr × Block))) := by
  refine ⟨fun u => Block.classify_eq_overflow, h.sound.inBounds, fun b hb => hb.sound.inBounds, ?_⟩
  intro b st hb hr
  obtain ⟨hstore, hpending⟩ := h.sound.of_course hb.sound hr
  refine ⟨hstore.inBounds, fun c hc => ⟨(hpending c hc).inBounds, ?_⟩⟩
  exact hstore.succeeds_overlapping (hpending c hc)

/-- The last two units that overlap and end with words: the one that starts first is split where
the other starts, and what is computed on the way comes out.  Only the next unit overflows. -/
theorem arithmetic_safe_at_the_end :
    let low := Block.twoSteps 0xfffffffffffffff9
    let high := Block.twoSteps 0xfffffffffffffffb
    let s := (({} : Store).insert high).1
    Built s ∧ s.InBounds Empty ∧
      (∃ first second, Rounds (s, [low]) (s.giveWay 0xfffffffffffffffb, [first, second]) ∧
        first.InBounds Empty ∧ second.InBounds Empty) ∧
      (s.insert low).1.addresses = [0xfffffffffffffff9, 0xfffffffffffffffb] ∧
      Block.classify (.twoSteps 0xfffffffffffffffd) = .error .overflow := by
  have hover : ((({} : Store).insert (.twoSteps 0xfffffffffffffffb)).1.overlapping
      (.twoSteps 0xfffffffffffffff9) : Checked BlockError _) =
      .ok (some (0xfffffffffffffffb, .twoSteps 0xfffffffffffffffb)) := by decide +kernel
  have haddresses : ((({} : Store).insert (.twoSteps 0xfffffffffffffffb)).1.insert
      (.twoSteps 0xfffffffffffffff9)).1.addresses = [0xfffffffffffffff9, 0xfffffffffffffffb] := by
    decide +kernel
  intro low high s
  have hlow : Block.classify (.twoSteps 0xfffffffffffffff9) = .ok low := by decide
  have hhigh : Block.classify (.twoSteps 0xfffffffffffffffb) = .ok high := by decide
  have hbuilt : Built s := Built.empty.insert hhigh
  obtain ⟨hclassify, hstore, -, hcourse⟩ := hbuilt.arithmetic_safe Empty
  obtain ⟨⟨first, second⟩, hsplit⟩ :=
    (Block.From.whole hlow).sound.split_of_boundary
      (show low.boundaries.contains 0xfffffffffffffffb = true by decide) (by decide)
  have hround : Rounds (s, [low]) (s.giveWay 0xfffffffffffffffb, [first, second]) :=
    .single (.splitNew hover (by decide) hsplit)
  obtain ⟨-, hpending⟩ := hcourse low _ ⟨_, .whole hlow⟩ hround
  refine ⟨hbuilt, hstore, ⟨first, second, hround, ?_, ?_⟩, haddresses,
    (hclassify _).mpr (by decide)⟩
  · exact (hpending first List.mem_cons_self).1
  · exact (hpending second (List.mem_cons_of_mem first List.mem_cons_self)).1

end Store

end FlowRecovery
