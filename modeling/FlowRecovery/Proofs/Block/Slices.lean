/-
Slices of a block.

A block can be cut before and behind each of its instruction boundaries.  `slice?` is
the part between two boundaries, in closed form; `split` yields two slices, and a slice
of the first half is a slice of the block.

* `Halves.upTo?_eq`, `Halves.from?_eq` — the halves of a split are slices;
* `Halves.upTo?_first` — cutting the first half again is cutting the block earlier;
* `Halves.slice?_first` — so the slices of the first half are those of the block.
-/
import FlowRecovery.Proofs.Body.Cut

namespace FlowRecovery

namespace Body

theorem get?_boundaries {b : Body} {pc : Addr} {pre post : List Inst}
    (h : (markers b.insts).Pairwise (· < ·)) (hb : b.insts = pre ++ .marker pc :: post) :
    b.boundaries.get? pc = some pre.length := by
  rw [← AddrMap.mem_entries_iff, entries_boundaries h]
  exact mem_markersFrom.mpr ⟨pre.length, by omega, by simp [hb]⟩

end Body

namespace Block

/-- The part of the block up to an instruction boundary. -/
def upTo? (b : Block) (hi : Addr) : Option Block :=
  (b.body.cutBefore? hi).map fun body =>
    { address := b.address, size := hi - b.address, kind := .fallthrough, body
      successors := .singleton hi }

/-- The part of the block from an instruction boundary on. -/
def from? (b : Block) (lo : Addr) : Option Block :=
  (b.body.cutFrom? lo).map fun body =>
    { b with address := lo, size := b.address + b.size - lo, body }

/-- The slice of the block from `lo` up to `hi`, or up to the end of the block. -/
def slice? (b : Block) (lo : Addr) : Option Addr → Option Block
  | none => if lo = b.address then some b else b.from? lo
  | some hi => (b.upTo? hi).bind fun front => if lo = b.address then some front else front.from? lo

variable {b first second : Block} {at_ : Addr}

/-! ### Halves are slices -/

theorem Halves.upTo?_eq (h : b.Halves at_ first second) : b.upTo? at_ = some first := by
  have hsize : at_ - b.address = first.size := by
    have hat : at_ = b.address + first.size := by
      rw [← UInt64.toNat_inj, UInt64.toNat_add, h.stop_first, Nat.mod_eq_of_lt at_.toNat_lt]
    rw [hat, UInt64.add_comm, UInt64.add_sub_cancel]
  rw [upTo?, h.body_first, Option.map_some, hsize]
  obtain ⟨address, size, kind, body, successors, callTargets, halts⟩ := first
  simp only [Option.some.injEq, Block.mk.injEq]
  exact ⟨h.address_first.symm, trivial, h.kind_first.symm, trivial, h.successors_first.symm,
    h.callTargets_first.symm, h.halts_first.symm⟩

theorem Halves.from?_eq (h : b.Halves at_ first second) : b.from? at_ = some second := by
  have hsize : b.address + b.size - at_ = second.size := by
    have hsum : b.address + b.size = second.size + at_ := by
      rw [← UInt64.toNat_inj, UInt64.toNat_add, UInt64.toNat_add, ← h.stop_second, Nat.add_comm]
    rw [hsum, UInt64.add_sub_cancel]
  rw [from?, h.body_second, Option.map_some, hsize]
  obtain ⟨address, size, kind, body, successors, callTargets, halts⟩ := second
  simp only [Option.some.injEq, Block.mk.injEq]
  exact ⟨h.address_second.symm, trivial, h.kind_second.symm, trivial, h.successors_second.symm,
    h.callTargets_second.symm, h.halts_second.symm⟩

theorem Halves.stop_first_eq (h : b.Halves at_ first second) : first.stop = at_.toNat := by
  rw [stop, h.address_first, h.stop_first]

theorem Halves.stop_second_eq (h : b.Halves at_ first second) : second.stop = b.stop := by
  rw [stop, h.address_second, h.stop_second, stop]

/-! ### Slices of the first half -/

/-- Below the cut, the first half has the boundaries of the block. -/
theorem Halves.boundary_first (h : b.Halves at_ first second) (hb : b.Sound) {a : Addr}
    (ha : a < at_) : first.boundaries.contains a = true ↔ b.boundaries.contains a = true := by
  obtain ⟨hfirst, hsecond⟩ := Sound.splitStable hb trivial h
  rw [hfirst.mem_markers, hb.mem_markers, h.markers_eq, List.mem_append]
  refine ⟨Or.inl, fun hmem => hmem.resolve_right fun hmem => ?_⟩
  -- The markers of the second half lie behind the cut.
  have hle := (hsecond.lawful.inside a hmem).1
  rw [h.address_second] at hle
  exact absurd ha (UInt64.not_lt.mpr hle)

/-- Cutting the first half again is cutting the block earlier. -/
theorem Halves.upTo?_first (h : b.Halves at_ first second) (hb : b.Sound) {a : Addr}
    (ha : a < at_) (hin : b.boundaries.contains a = true) : first.upTo? a = b.upTo? a := by
  have hfirst := (Sound.splitStable hb trivial h).1
  obtain ⟨pre, post, hcut, hbefore, -⟩ := hb.exists_parts h.inside
  rw [h.body_first, Option.some.injEq] at hbefore
  -- The marker stands in the code before the cut, so both cuts leave the same code.
  have hmem : a ∈ markers pre := by
    have hmem := hb.mem_markers.mp hin
    rw [hcut, markers_append, List.mem_append] at hmem
    refine hmem.resolve_right fun hmem => ?_
    have hpair := (hb.lawful.markers_cut hcut).2.2
    rcases List.mem_cons.mp hmem with rfl | hmem
    · exact UInt64.lt_irrefl _ ha
    · exact UInt64.lt_irrefl _ (UInt64.lt_trans ha ((List.pairwise_cons.mp hpair).1 a hmem))
  obtain ⟨i, hi, hmarker⟩ := List.mem_filterMap.mp hmem
  obtain rfl : i = .marker a := by
    cases i with
    | marker pc => exact congrArg Inst.marker (Option.some.inj hmarker)
    | _ => cases hmarker
  obtain ⟨l, m, rfl⟩ := List.append_of_mem hi
  have hwhole : b.body.insts = l ++ .marker a :: (m ++ .marker at_ :: post) := by
    rw [hcut, List.append_assoc, List.cons_append]
  have hhalf : first.body.insts = l ++ .marker a :: (m ++ Body.rawEnd (some (.pc at_))) := by
    rw [hbefore, List.append_assoc, List.cons_append]
  rw [upTo?, upTo?, Body.cutBefore?_eq hwhole (Body.get?_boundaries hb.lawful.increasing hwhole),
    Body.cutBefore?_eq hhalf (Body.get?_boundaries hfirst.lawful.increasing hhalf),
    h.address_first, hbefore]

/-- The slices of the first half are those of the block, the last of them up to the cut. -/
theorem Halves.slice?_first (h : b.Halves at_ first second) (hb : b.Sound) {lo : Addr}
    {next : Option Addr} (hnext : ∀ a ∈ next, a < at_ ∧ b.boundaries.contains a = true) :
    first.slice? lo next = b.slice? lo (next.or (some at_)) := by
  cases next with
  | none =>
    show _ = (b.upTo? at_).bind _
    rw [h.upTo?_eq, Option.bind_some, slice?, h.address_first]
  | some a =>
    obtain ⟨ha, hin⟩ := hnext a rfl
    show (first.upTo? a).bind _ = (b.upTo? a).bind _
    rw [h.upTo?_first hb ha hin, h.address_first]

/-- The second half is the last slice. -/
theorem Halves.slice?_second (h : b.Halves at_ first second) (hne : at_ ≠ b.address) :
    b.slice? at_ none = some second := by
  rw [slice?, if_neg hne, h.from?_eq]

end Block

end FlowRecovery
