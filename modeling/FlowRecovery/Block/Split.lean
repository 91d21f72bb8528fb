/-
What a successful split yields.

* `halves_of_split` — the halves are the two cuts of the body at an instruction
  boundary, and both keep the contract of lifted units;
* `Halves.markers_eq` — the halves share the markers of the block between them;
* `weight_split` — counting markers beyond the first, two halves weigh less than
  the block they come from, so no block can be split forever.
-/
import FlowRecovery.Block

namespace FlowRecovery

/-- The addresses of the markers, in order. -/
def markers (insts : List Inst) : List Addr := insts.filterMap Inst.marker?

@[simp] theorem markers_append (l m : List Inst) : markers (l ++ m) = markers l ++ markers m :=
  List.filterMap_append

theorem Inst.marker?_eq_none_of_def? {i : Inst} {t : Temp} (h : i.def? = some t) :
    i.marker? = none := by
  cases i <;> simp_all [Inst.def?, Inst.marker?]

/-- Carried definitions are no markers. -/
theorem Body.markers_carry (needed : List Temp) (carried earlier : List Inst) :
    markers (Body.carry needed carried earlier) = markers carried := by
  induction earlier generalizing needed carried with
  | nil => rfl
  | cons i earlier ih =>
    unfold Body.carry
    split
    · next t ht =>
      split
      · rw [ih]
        exact List.filterMap_cons_none (Inst.marker?_eq_none_of_def? ht)
      · exact ih _ _
    · exact ih _ _

/-- A body that keeps the contract starts with its own marker. -/
theorem Body.markers_of_check {b : Body} {address : Addr} {size : Word}
    (h : b.check address size = .ok ()) : ∃ rest, markers b.insts = address :: rest := by
  obtain ⟨-, hstart, -⟩ := Body.check_eq_ok.mp h
  cases hb : b.insts with
  | nil =>
    rw [hb] at hstart
    cases hstart
  | cons i rest =>
    rw [hb] at hstart
    cases i with
    | marker pc =>
      rw [Body.checkStart] at hstart
      split at hstart
      · next hpc => exact ⟨markers rest, by rw [← hpc]; rfl⟩
      · cases hstart
    | _ => cases hstart

namespace Block

/-- What the halves of a block that is split at an address are.  Together they cover
the addresses of the block; the first falls through into the second, which keeps
how the block ends and where it leads. -/
structure Halves (b : Block) (at_ : Addr) (first second : Block) : Prop where
  inside : b.boundaries.contains at_ = true
  address_first : first.address = b.address
  address_second : second.address = at_
  stop_first : b.address.toNat + first.size.toNat = at_.toNat
  stop_second : at_.toNat + second.size.toNat = b.address.toNat + b.size.toNat
  body_first : b.body.cutBefore? at_ = some first.body
  body_second : b.body.cutFrom? at_ = some second.body
  checked_first : first.body.check first.address first.size = .ok ()
  checked_second : second.body.check second.address second.size = .ok ()
  kind_first : first.kind = .fallthrough
  kind_second : second.kind = b.kind
  successors_first : first.successors = .singleton at_
  successors_second : second.successors = b.successors
  callTargets_first : first.callTargets = ∅
  callTargets_second : second.callTargets = b.callTargets
  halts_first : first.halts = false
  halts_second : second.halts = b.halts

/-- A split that succeeds yields halves. -/
theorem halves_of_split {b first second : Block} {at_ : Addr}
    (h : b.split at_ = .ok (first, second)) : b.Halves at_ first second := by
  unfold split at h
  by_cases hg : b.boundaries.size < 2 ∨ at_ = b.address
  · rw [if_pos hg] at h
    exact absurd h Checked.refuse_ne_ok
  · rw [if_neg hg] at h
    cases hb : b.body.cutBefore? at_ with
    | none =>
      simp only [hb] at h
      exact absurd h Checked.refuse_ne_ok
    | some before =>
      cases hf : b.body.cutFrom? at_ with
      | none =>
        simp only [hb, hf] at h
        exact absurd h Checked.refuse_ne_ok
      | some from_ =>
        simp only [hb, hf] at h
        obtain ⟨fs, h1, h⟩ := Checked.bind_eq_ok.mp h
        obtain ⟨l, h2, h⟩ := Checked.bind_eq_ok.mp h
        obtain ⟨ss, h3, h⟩ := Checked.bind_eq_ok.mp h
        obtain ⟨_, h4, h⟩ := Checked.bind_eq_ok.mp h
        obtain ⟨_, h5, h⟩ := Checked.bind_eq_ok.mp h
        cases h
        rw [checkedSub_eq_ok] at h1 h3
        rw [limit, checkedAdd_eq_ok] at h2
        rw [Checked.lift_eq_ok, Checked.mapError_eq_ok, Body.verify_eq_ok] at h4 h5
        obtain ⟨n, hn, -⟩ := Option.map_eq_some_iff.mp hb
        have hin : b.boundaries.contains at_ = true :=
          Option.isSome_iff_exists.mpr ⟨n, hn⟩
        exact ⟨hin, rfl, rfl, h1.symm, h3.symm.trans h2.symm, hb, hf, h4, h5, rfl, rfl, rfl,
          rfl, rfl, rfl, rfl, rfl⟩

/-- The markers of a block are those of the first half and then those of the second. -/
theorem Halves.markers_eq {b first second : Block} {at_ : Addr} (h : b.Halves at_ first second) :
    markers b.body.insts = markers first.body.insts ++ markers second.body.insts := by
  obtain ⟨n, hn, e1⟩ := Option.map_eq_some_iff.mp h.body_first
  obtain ⟨n2, hn2, e2⟩ := Option.map_eq_some_iff.mp h.body_second
  rw [hn, Option.some.injEq] at hn2
  subst hn2
  have c1 : markers first.body.insts = markers (b.body.insts.take n) := by
    rw [← e1]
    show markers (List.take n _ ++ [.branch _, .exit]) = _
    rw [markers_append]
    exact List.append_nil _
  have c2 : markers second.body.insts = markers (b.body.insts.drop n) := by
    rw [← e2]
    show markers (List.take 1 _ ++ Body.carry _ _ _ ++ List.drop 1 _) = _
    rw [markers_append, markers_append, Body.markers_carry]
    show markers _ ++ [] ++ markers _ = _
    rw [List.append_nil, ← markers_append, List.take_append_drop]
  rw [c1, c2, ← markers_append, List.take_append_drop]

/-- How many markers a block has beyond the first. -/
def weight (b : Block) : Nat := (markers b.body.insts).length - 1

/-- Two halves weigh less than the block they come from. -/
theorem weight_split {b first second : Block} {at_ : Addr}
    (h : b.split at_ = .ok (first, second)) : first.weight + second.weight < b.weight := by
  have hv := halves_of_split h
  obtain ⟨r1, h1⟩ := Body.markers_of_check hv.checked_first
  obtain ⟨r2, h2⟩ := Body.markers_of_check hv.checked_second
  unfold weight
  rw [hv.markers_eq, h1, h2, List.length_append, List.length_cons, List.length_cons]
  omega

end Block

end FlowRecovery
