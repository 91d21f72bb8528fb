/-
Where a block can be divided, and what the parts are.

A split succeeds at the instruction boundaries inside the block and nowhere else: the
checks that are made of the halves again never refuse them, whatever the code carries over
the cut.  The halves share the bytes and the boundaries of the block between them.

* `Halves.keys_first`, `Halves.keys_second` — which boundaries the halves have;
* `split_exact` — when a split succeeds, and all that it yields.
-/
import FlowRecovery.Proofs.Block.Slices

namespace FlowRecovery

namespace Block

variable {b first second : Block} {at_ : Addr}

/-- The markers of the first half lie before the cut, and those of the second behind it. -/
theorem Halves.markers_lt (h : b.Halves at_ first second) :
    (∀ a ∈ markers first.body.insts, a < at_) ∧ ∀ a ∈ markers second.body.insts, at_ ≤ a := by
  have hfirst := Body.check_iff_lawful.mp h.checked_first
  have hsecond := Body.check_iff_lawful.mp h.checked_second
  constructor
  · intro a ha
    have hlt := (hfirst.inside a ha).2
    rw [h.address_first, Body.saturatingAdd_eq h.stop_first] at hlt
    exact hlt
  · intro a ha
    have hle := (hsecond.inside a ha).1
    rw [h.address_second] at hle
    exact hle

theorem Halves.keys_first (h : b.Halves at_ first second) (hb : b.Sound) :
    first.boundaries.keys = b.boundaries.keys.filter (· < at_) := by
  obtain ⟨hlt, hle⟩ := h.markers_lt
  have hkept : (markers first.body.insts).filter (· < at_) = markers first.body.insts :=
    List.filter_eq_self.mpr fun a ha => decide_eq_true (hlt a ha)
  have hgone : (markers second.body.insts).filter (· < at_) = [] :=
    List.filter_eq_nil_iff.mpr fun a ha => by simpa using hle a ha
  show first.body.boundaries.keys = b.body.boundaries.keys.filter _
  rw [Body.keys_boundaries h.checked_first, Body.keys_boundaries hb.checked, h.markers_eq,
    List.filter_append, hkept, hgone, List.append_nil]

theorem Halves.keys_second (h : b.Halves at_ first second) (hb : b.Sound) :
    second.boundaries.keys = b.boundaries.keys.filter (at_ ≤ ·) := by
  obtain ⟨hlt, hle⟩ := h.markers_lt
  have hgone : (markers first.body.insts).filter (at_ ≤ ·) = [] :=
    List.filter_eq_nil_iff.mpr fun a ha => by simpa using hlt a ha
  have hkept : (markers second.body.insts).filter (at_ ≤ ·) = markers second.body.insts :=
    List.filter_eq_self.mpr fun a ha => decide_eq_true (hle a ha)
  show second.body.boundaries.keys = b.body.boundaries.keys.filter _
  rw [Body.keys_boundaries h.checked_second, Body.keys_boundaries hb.checked, h.markers_eq,
    List.filter_append, hgone, hkept, List.nil_append]

/-- The halves share the bytes of the block between them. -/
theorem Halves.sizes (h : b.Halves at_ first second) (hb : b.Sound) :
    first.size.toNat + second.size.toNat = b.size.toNat ∧ 0 < first.size ∧ 0 < second.size := by
  obtain ⟨hfirst, hsecond⟩ := Sound.splitStable hb trivial h
  have h1 := h.stop_first
  have h2 := h.stop_second
  refine ⟨by omega, ?_, ?_⟩
  · exact UInt64.lt_iff_toNat_lt.mpr hfirst.size_pos
  · exact UInt64.lt_iff_toNat_lt.mpr hsecond.size_pos

/-- **When a split succeeds, and what it yields.**  A block whose body is accepted and whose
end is a word can be split at each of its instruction boundaries but its start.  Anywhere
else it is refused as not splittable, never because a half is not accepted. -/
theorem split_exact (b : Block) (at_ : Addr)
    (hverify : b.body.verify b.address b.size = .ok ()) (hfits : Fits b.address b.size) :
    ((∃ halves, b.split at_ = .ok halves) ↔
      b.boundaries.contains at_ = true ∧ at_ ≠ b.address) ∧
    (∀ err, b.split at_ = .error err → err = .refused (.notSplittable b.address at_)) ∧
    ∀ first second, b.split at_ = .ok (first, second) →
      first.address = b.address ∧ second.address = at_ ∧
      first.size.toNat + second.size.toNat = b.size.toNat ∧ 0 < first.size ∧ 0 < second.size ∧
      first.boundaries.keys = b.boundaries.keys.filter (· < at_) ∧
      second.boundaries.keys = b.boundaries.keys.filter (at_ ≤ ·) ∧
      first.kind = .fallthrough ∧ first.successors = .singleton at_ ∧
      second.kind = b.kind ∧ second.successors = b.successors ∧
      second.callTargets = b.callTargets ∧ second.halts = b.halts := by
  have hb : b.Sound := ⟨hfits, Body.verify_eq_ok.mp hverify⟩
  refine ⟨⟨?_, ?_⟩, ?_, ?_⟩
  · rintro ⟨⟨first, second⟩, hsplit⟩
    have hv := halves_of_split hsplit
    refine ⟨hv.inside, ?_⟩
    -- A cut at the start would leave nothing for the first half.
    rintro rfl
    have hpos := (Sound.splitStable hb trivial hv).1.size_pos
    have hstop := hv.stop_first
    omega
  · rintro ⟨hin, hne⟩
    exact hb.split_of_boundary hin hne
  · intro err herr
    exact (hb.split_eq_error herr).1
  · intro first second hsplit
    have hv := halves_of_split hsplit
    obtain ⟨hsum, hpos1, hpos2⟩ := hv.sizes hb
    exact ⟨hv.address_first, hv.address_second, hsum, hpos1, hpos2, hv.keys_first hb,
      hv.keys_second hb, hv.kind_first, hv.successors_first, hv.kind_second, hv.successors_second,
      hv.callTargets_second, hv.halts_second⟩

/-- Three machine instructions; the last branches to what the first two have computed. -/
def computedJump : Block where
  address := 16
  size := 6
  kind := .jumpIndirect
  body :=
    { insts := [.marker 16, .setPc 16, .readReg 0 "rax", .marker 18, .setPc 18,
        .load 1 (.temp 0) 8, .marker 20, .setPc 20, .branch (.temp 1), .exit]
      nextTemp := 2 }

/-- The block can be split where its last instruction begins, although the branch needs
definitions of both instructions before. -/
theorem split_exact_computedJump :
    computedJump.body.verify 16 6 = .ok () ∧ Fits 16 6 ∧
      ∃ first second, computedJump.split 20 = .ok (first, second) ∧
        first.boundaries.keys = [16, 18] ∧ second.boundaries.keys = [20] ∧
        first.size.toNat + second.size.toNat = 6 ∧ second.kind = .jumpIndirect := by
  have hverify : computedJump.body.verify 16 6 = .ok () := by decide
  have hfits : Fits 16 6 := by decide
  obtain ⟨hiff, -, hyields⟩ := split_exact computedJump 20 hverify hfits
  obtain ⟨⟨first, second⟩, hsplit⟩ := hiff.mpr ⟨by decide, by decide⟩
  obtain ⟨-, -, hsum, -, -, hkeys1, hkeys2, -, -, hkind, -⟩ := hyields first second hsplit
  exact ⟨hverify, hfits, first, second, hsplit, hkeys1, hkeys2, hsum, hkind⟩

end Block

end FlowRecovery
