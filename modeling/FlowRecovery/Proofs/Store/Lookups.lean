/-
Look-ups in a store.

`findContaining` and `overlapping` look at one block only: the last one that starts up to an
address, or below a limit.  Blocks of a sound store are disjoint, so the blocks before that one
end before it starts, and a look at all blocks would find no other.

* `Sound.findContaining_eq_some`, `Sound.findContaining_eq_none` — the block of an address;
* `Block.Sound.disjoint_span_iff` — when blocks meet, in terms of where they start and end;
* `Built.lookups_exact` — both look-ups agree with a look at all blocks.
-/
import FlowRecovery.Proofs.Store.Arithmetic
import FlowRecovery.Proofs.Store.Course

namespace FlowRecovery

namespace Block

theorem mem_span {b : Block} {n : Nat} : n ∈ b.span ↔ b.address.toNat ≤ n ∧ n < b.stop := Iff.rfl

instance (b : Block) (n : Nat) : Decidable (n ∈ b.span) := inferInstanceAs (Decidable (_ ∧ _))

/-- Two blocks have no address in common exactly if one ends before the other starts. -/
theorem Sound.disjoint_span_iff {b c : Block} (hb : b.Sound) (hc : c.Sound) :
    Disjoint c.span b.span ↔ c.stop ≤ b.address.toNat ∨ b.stop ≤ c.address.toNat := by
  have := hb.lt_stop
  have := hc.lt_stop
  rw [span, span, Set.Ico_disjoint_Ico]
  omega

end Block

namespace Store

variable {ε : Type} {s : Store} {a : Addr} {b : Block}

theorem mem_toList : b ∈ s.toList ↔ ∃ k, s.get? k = some b := AddrMap.mem_values

namespace Sound

theorem mem_toList_iff (h : s.Sound) : b ∈ s.toList ↔ s.get? b.address = some b := by
  rw [mem_toList]
  constructor
  · rintro ⟨k, hk⟩
    rw [h.keyed k b hk]
    exact hk
  · intro hb
    exact ⟨b.address, hb⟩

theorem sound_of_mem_toList (h : s.Sound) (hb : b ∈ s.toList) : b.Sound :=
  h.blocks b.address b (h.mem_toList_iff.mp hb)

/-- What is found for an address is the last block that starts up to it, if that block covers
it. -/
theorem findContaining_eq (h : s.Sound) (a : Addr) : (s.findContaining a : Checked ε _) =
    .ok (((s.blocks.lastUpTo? a).map (·.2)).filter fun b => decide (a.toNat < b.stop)) := by
  rw [findContaining]
  cases hlast : s.blocks.lastUpTo? a with
  | none => rfl
  | some e =>
    obtain ⟨k, b⟩ := e
    obtain ⟨hget, hle, -⟩ := AddrMap.lastUpTo?_eq_some hlast
    have hstart : b.address.toNat ≤ a.toNat := by
      rw [h.keyed k b hget]
      exact UInt64.le_iff_toNat_le.mp hle
    show (b.contains a).map _ = _
    rw [(h.blocks k b hget).contains_eq, Option.map_some, Option.filter_some]
    by_cases hlt : a.toNat < b.stop
    · simp [hstart, hlt, Except.map]
    · simp [hlt, Except.map]

/-- A stored block that covers an address is the last one that starts up to it: the next one
starts behind its end. -/
theorem lastUpTo?_of_mem_span (h : s.Sound) (hb : b ∈ s.toList) (ha : a.toNat ∈ b.span) :
    s.blocks.lastUpTo? a = some (b.address, b) := by
  obtain ⟨hstart, hlt⟩ := Block.mem_span.mp ha
  have hget := h.mem_toList_iff.mp hb
  have hupTo : b.address ≤ a := UInt64.le_iff_toNat_le.mpr hstart
  cases hlast : s.blocks.lastUpTo? a with
  | none => exact absurd hupTo (AddrMap.lastUpTo?_eq_none hlast _ b hget)
  | some e =>
    obtain ⟨k, c⟩ := e
    obtain ⟨hc, hk, hgreatest⟩ := AddrMap.lastUpTo?_eq_some hlast
    rcases hgreatest _ b hget hupTo with rfl | hbk
    · rw [Option.some.inj (hget.symm.trans hc)]
    · have hstop := h.apart _ k b hget (contains_iff.mpr ⟨c, hc⟩) hbk
      rw [UInt64.le_iff_toNat_le] at hk
      omega

theorem findContaining_eq_some (h : s.Sound) :
    (s.findContaining a : Checked ε _) = .ok (some b) ↔ b ∈ s.toList ∧ a.toNat ∈ b.span := by
  rw [h.findContaining_eq, Except.ok.injEq, Option.filter_eq_some_iff, Option.map_eq_some_iff]
  constructor
  · rintro ⟨⟨⟨k, c⟩, hlast, rfl⟩, hlt⟩
    obtain ⟨hget, hle, -⟩ := AddrMap.lastUpTo?_eq_some hlast
    refine ⟨mem_toList.mpr ⟨k, hget⟩, ?_, by simpa using hlt⟩
    rw [h.keyed k c hget]
    exact UInt64.le_iff_toNat_le.mp hle
  · rintro ⟨hb, ha⟩
    exact ⟨⟨_, h.lastUpTo?_of_mem_span hb ha, rfl⟩, decide_eq_true ha.2⟩

theorem findContaining_eq_none (h : s.Sound) :
    (s.findContaining a : Checked ε _) = .ok none ↔ ∀ b ∈ s.toList, a.toNat ∉ b.span := by
  obtain ⟨found, hfound⟩ := h.succeeds_findContaining (ε := ε) a
  constructor
  · intro hnone b hb ha
    have hsome := (h.findContaining_eq_some (ε := ε)).mpr ⟨hb, ha⟩
    rw [hnone] at hsome
    cases hsome
  · intro hall
    cases found with
    | none => exact hfound
    | some b =>
      obtain ⟨hb, ha⟩ := h.findContaining_eq_some.mp hfound
      exact absurd ha (hall b hb)

/-- The block that is found has addresses in common with the given one, and no later one has. -/
theorem overlapping_eq_some_iff {k : Addr} {c : Block} (h : s.Sound) (hb : b.Sound) :
    (s.overlapping b : Checked ε _) = .ok (some (k, c)) ↔
      c.address = k ∧ c ∈ s.toList ∧ ¬ Disjoint c.span b.span ∧
        ∀ d ∈ s.toList, ¬ Disjoint d.span b.span → d.address ≤ c.address := by
  rw [h.overlapping_eq_some hb]
  constructor
  · rintro ⟨hget, hlow, hhigh, hgreatest⟩
    obtain rfl := h.keyed k c hget
    refine ⟨rfl, mem_toList.mpr ⟨_, hget⟩, ?_, ?_⟩
    · rw [hb.disjoint_span_iff (h.blocks _ c hget)]
      omega
    · intro d hd hmeets
      rw [hb.disjoint_span_iff (h.sound_of_mem_toList hd)] at hmeets
      exact hgreatest _ d (h.mem_toList_iff.mp hd) (by omega)
  · rintro ⟨rfl, hc, hmeets, hgreatest⟩
    rw [hb.disjoint_span_iff (h.sound_of_mem_toList hc)] at hmeets
    have hget := h.mem_toList_iff.mp hc
    refine ⟨hget, by omega, by omega, ?_⟩
    intro x d hd hlow
    obtain rfl := h.keyed x d hd
    have hdsound := h.blocks _ d hd
    by_cases hmeetsd : Disjoint d.span b.span
    · -- A block that starts below the limit and has no address in common ends before the given
      -- one, so it cannot stand behind the block that is found.
      rw [hb.disjoint_span_iff hdsound] at hmeetsd
      refine UInt64.not_lt.mp fun hlt => ?_
      have hstop := h.apart _ d.address c hget (contains_iff.mpr ⟨d, hd⟩) hlt
      have := hdsound.lt_stop
      omega
    · exact hgreatest d (mem_toList.mpr ⟨_, hd⟩) hmeetsd

theorem overlapping_eq_none_iff (h : s.Sound) (hb : b.Sound) :
    (s.overlapping b : Checked ε _) = .ok none ↔ ∀ c ∈ s.toList, Disjoint c.span b.span := by
  rw [h.overlapping_eq_none hb]
  constructor
  · intro hapart c hc
    rw [hb.disjoint_span_iff (h.sound_of_mem_toList hc)]
    exact hapart _ c (h.mem_toList_iff.mp hc)
  · intro hall k c hc
    have hdisjoint := hall c (mem_toList.mpr ⟨k, hc⟩)
    rw [hb.disjoint_span_iff (h.blocks k c hc), h.keyed k c hc] at hdisjoint
    exact hdisjoint

end Sound

/-- **Look-ups agree with a look at all blocks.**  In a built store both look-ups always answer.
The block found for an address is the one stored block that covers it, and none is found if none
does.  The block found for the block of a unit is, of the stored blocks that have addresses in
common with it, the one that starts last, and none is found if there are no such blocks. -/
theorem Built.lookups_exact (h : Built s) (ε : Type) :
    (∀ a, ∃ found, (s.findContaining a : Checked ε (Option Block)) = .ok found ∧
      (found = none ↔ ∀ b ∈ s.toList, a.toNat ∉ b.span) ∧
      ∀ b, found = some b ↔ b ∈ s.toList ∧ a.toNat ∈ b.span) ∧
    ∀ u b, Block.classify u = .ok b →
      ∃ found, (s.overlapping b : Checked ε (Option (Addr × Block))) = .ok found ∧
        (found = none ↔ ∀ c ∈ s.toList, Disjoint c.span b.span) ∧
        ∀ k c, found = some (k, c) ↔
          c.address = k ∧ c ∈ s.toList ∧ ¬ Disjoint c.span b.span ∧
            ∀ d ∈ s.toList, ¬ Disjoint d.span b.span → d.address ≤ c.address := by
  have hs := h.sound
  constructor
  · intro a
    obtain ⟨found, hfound⟩ := hs.succeeds_findContaining (ε := ε) a
    refine ⟨found, hfound, ?_, fun b => ?_⟩
    · rw [← hs.findContaining_eq_none (ε := ε), hfound, Except.ok.injEq]
    · rw [← hs.findContaining_eq_some (ε := ε), hfound, Except.ok.injEq]
  · intro u b hu
    have hb : b.Sound := .of_classified (Block.classified_of_classify hu)
    obtain ⟨found, hfound⟩ := hs.succeeds_overlapping (ε := ε) hb
    refine ⟨found, hfound, ?_, fun k c => ?_⟩
    · rw [← hs.overlapping_eq_none_iff (ε := ε) hb, hfound, Except.ok.injEq]
    · rw [← hs.overlapping_eq_some_iff (ε := ε) hb, hfound, Except.ok.injEq]

/-- Two blocks that touch: the last address of the first, the first address of the second and the
one behind both, and a unit that has addresses in common with both. -/
theorem lookups_exact_touching :
    let s := ((({} : Store).insert (.twoSteps 14)).1.insert (.twoSteps 18)).1
    Built s ∧ s.toList = [.twoSteps 14, .twoSteps 18] ∧
      (s.findContaining 17 : Checked Empty _) = .ok (some (.twoSteps 14)) ∧
      (s.findContaining 18 : Checked Empty _) = .ok (some (.twoSteps 18)) ∧
      (s.findContaining 22 : Checked Empty _) = .ok none ∧
      Block.classify (.twoSteps 16) = .ok (.twoSteps 16) ∧
      (s.overlapping (.twoSteps 16) : Checked Empty _) = .ok (some (18, .twoSteps 18)) := by
  have hlist : ((({} : Store).insert (.twoSteps 14)).1.insert (.twoSteps 18)).1.toList =
      [.twoSteps 14, .twoSteps 18] := by decide +kernel
  intro s
  have h14 : Block.classify (.twoSteps 14) = .ok (.twoSteps 14) := by decide
  have h16 : Block.classify (.twoSteps 16) = .ok (.twoSteps 16) := by decide
  have h18 : Block.classify (.twoSteps 18) = .ok (.twoSteps 18) := by decide
  have hbuilt : Built s := (Built.empty.insert h14).insert h18
  have hmem14 : Block.twoSteps 14 ∈ s.toList := hlist ▸ List.mem_cons_self
  have hmem18 : Block.twoSteps 18 ∈ s.toList := hlist ▸ List.mem_cons_of_mem _ List.mem_cons_self
  obtain ⟨hfind, hover⟩ := hbuilt.lookups_exact Empty
  obtain ⟨at17, hat17, -, h17⟩ := hfind 17
  obtain ⟨at18, hat18, -, h18'⟩ := hfind 18
  obtain ⟨at22, hat22, h22, -⟩ := hfind 22
  obtain ⟨meeting, hmeeting, -, hlast⟩ := hover _ _ h16
  rw [(h17 _).mpr ⟨hmem14, by decide⟩] at hat17
  rw [(h18' _).mpr ⟨hmem18, by decide⟩] at hat18
  refine ⟨hbuilt, hlist, hat17, hat18, ?_, h16, ?_⟩
  · rw [hat22, h22.mpr]
    rw [hlist]
    decide
  · rw [hmeeting, (hlast 18 (.twoSteps 18)).mpr]
    refine ⟨rfl, hmem18, ?_, ?_⟩
    · rw [Block.span, Block.span, Set.Ico_disjoint_Ico]
      decide
    · rw [hlist]
      intro d hd _
      rcases List.mem_pair.mp hd with rfl | rfl <;> decide

end Store

end FlowRecovery
