/-
What the check of a function decides.

The check goes through the labels, the blocks and the temporaries of a function and
stops at the first fault.  What it asks is a statement about the function as a whole
(`Func.WellFormed`):

* `checkInst_eq_ok`, `checkBlock_eq_ok` — a block ends with its only terminator, holds
  no raw transfer, and goes to labels of the function;
* `checkAllTemps_eq_ok` — temporaries are defined once, below the next one, wherever
  they are read;
* `check_iff_wellFormed` — the check decides `WellFormed`.
-/
import FlowRecovery.Module.WellFormed
import FlowRecovery.Proofs.Body.Checks
import FlowRecovery.Proofs.Lists

namespace FlowRecovery

namespace Inst

/-- The labels that the instruction may go to. -/
def targets : Inst → List String
  | .jump label => [label]
  | .condJump _ thenLabel elseLabel => [thenLabel, elseLabel]
  | _ => []

/-- Whether the instruction belongs to the raw end of a lifted unit. -/
def isRaw (i : Inst) : Bool := i.branch?.isSome || decide (i = .exit)

end Inst

theorem firstRepeat?_eq_none {α : Type} [DecidableEq α] {seen l : List α} :
    firstRepeat? seen l = none ↔ l.Nodup ∧ ∀ a ∈ l, a ∉ seen := by
  induction l generalizing seen with
  | nil => simp [firstRepeat?]
  | cons a l ih =>
    rw [firstRepeat?, List.nodup_cons, List.forall_mem_cons]
    by_cases ha : a ∈ seen
    · rw [if_pos ha]
      exact ⟨nofun, fun h => absurd ha h.2.1⟩
    · rw [if_neg ha, ih]
      constructor
      · rintro ⟨hnodup, hnew⟩
        refine ⟨⟨fun hmem => hnew a hmem List.mem_cons_self, hnodup⟩, ha, fun b hb hmem => ?_⟩
        exact hnew b hb (List.mem_cons_of_mem _ hmem)
      · rintro ⟨⟨hmem, hnodup⟩, -, hnew⟩
        refine ⟨hnodup, fun b hb hseen => ?_⟩
        rcases List.mem_cons.mp hseen with rfl | hseen
        · exact hmem hb
        · exact hnew b hb hseen

theorem firstRepeat?_nil_eq_none {α : Type} [DecidableEq α] {l : List α} :
    firstRepeat? [] l = none ↔ l.Nodup := by
  rw [firstRepeat?_eq_none]
  exact and_iff_left fun _ _ => List.not_mem_nil

/-- The code ends with its only terminator. -/
def EndsOnce (insts : List Inst) : Prop :=
  ∃ code last, insts = code ++ [last] ∧ last.isTerminator = true ∧
    ∀ i ∈ code, i.isTerminator = false

theorem EndsOnce.append_left {l m : List Inst} (hl : ∀ i ∈ l, i.isTerminator = false)
    (hm : EndsOnce m) : EndsOnce (l ++ m) := by
  obtain ⟨code, last, rfl, hlast, hcode⟩ := hm
  refine ⟨l ++ code, last, by rw [List.append_assoc], hlast, fun i hi => ?_⟩
  exact (List.mem_append.mp hi).elim (hl i) (hcode i)

/-- The block ends with its only terminator, holds no raw transfer, and goes to the
given labels only. -/
structure CodeBlock.Closed (labels : List String) (b : CodeBlock) : Prop where
  ending : EndsOnce b.insts
  noRaw : ∀ i ∈ b.insts, i.isRaw = false
  targets : ∀ i ∈ b.insts, ∀ label ∈ i.targets, label ∈ labels

namespace Func

theorem checkInst_eq_ok {labels : List String} {label : String} {isLast : Bool} {i : Inst} :
    checkInst labels label isLast i = .ok () ↔
      (i.isTerminator = true → isLast = true) ∧ i.isRaw = false ∧
        ∀ l ∈ i.targets, l ∈ labels := by
  unfold checkInst
  by_cases hlast : (i.isTerminator && !isLast) = true
  · rw [if_pos hlast]
    simp only [Bool.and_eq_true, Bool.not_eq_true'] at hlast
    exact ⟨nofun, fun h => absurd (h.1 hlast.1) (by rw [hlast.2]; exact Bool.false_ne_true)⟩
  · rw [if_neg hlast]
    simp only [Bool.and_eq_true, Bool.not_eq_true', not_and, Bool.not_eq_false] at hlast
    cases i with
    | branch target => exact ⟨nofun, fun h => nomatch h.2.1⟩
    | exit => exact ⟨nofun, fun h => nomatch h.2.1⟩
    | jump target => simp_all [Inst.isRaw, Inst.branch?, Inst.targets]
    | condJump cond thenLabel elseLabel =>
      simp only [Inst.targets, List.forall_mem_cons, List.not_mem_nil, false_imp_iff,
        forall_const, and_true]
      by_cases hthen : thenLabel ∈ labels
      · by_cases helse : elseLabel ∈ labels
        · simp only [hthen, helse, not_true_eq_false, if_false, and_true]
          exact ⟨fun _ => ⟨hlast, rfl⟩, fun _ => trivial⟩
        · simp [hthen, helse]
      · simp [hthen]
    | _ => exact ⟨fun _ => ⟨hlast, rfl, fun _ h => absurd h List.not_mem_nil⟩, fun _ => rfl⟩

/-- The instructions of a block pass if each is no raw transfer and goes to known labels,
and none but the last is a terminator. -/
theorem checkInsts_eq_ok {labels : List String} {label : String} {insts : List Inst} :
    checkInsts labels label insts = .ok () ↔
      (∀ i ∈ insts.dropLast, i.isTerminator = false) ∧
      ∀ i ∈ insts, i.isRaw = false ∧ ∀ l ∈ i.targets, l ∈ labels := by
  induction insts with
  | nil => simp [checkInsts]
  | cons i rest ih =>
    rw [checkInsts, seq_eq_ok, checkInst_eq_ok, ih, List.forall_mem_cons]
    cases rest with
    | nil => simp
    | cons j rest =>
      have hlast : (i.isTerminator = true → (j :: rest).isEmpty = true) ↔
          i.isTerminator = false := by
        cases i.isTerminator <;> simp
      rw [List.dropLast_cons_cons, List.forall_mem_cons (l := (j :: rest).dropLast), hlast]
      constructor
      · rintro ⟨⟨hi, hlabels⟩, hinner, hrest⟩
        exact ⟨⟨hi, hinner⟩, hlabels, hrest⟩
      · rintro ⟨⟨hi, hinner⟩, hlabels, hrest⟩
        exact ⟨⟨hi, hlabels⟩, hinner, hrest⟩

theorem checkBlock_eq_ok {labels : List String} {b : CodeBlock} :
    checkBlock labels b = .ok () ↔ b.Closed labels := by
  unfold checkBlock
  cases hlast : b.insts.getLast? with
  | none =>
    have hnil := List.getLast?_eq_none_iff.mp hlast
    refine ⟨nofun, fun h => ?_⟩
    obtain ⟨code, last, hb, -⟩ := h.ending
    simp [hnil] at hb
  | some last =>
    obtain ⟨code, hcode⟩ := List.getLast?_eq_some_iff.mp hlast
    simp only
    by_cases hterm : last.isTerminator = true
    · rw [if_pos hterm, checkInsts_eq_ok, hcode, List.dropLast_concat]
      constructor
      · rintro ⟨hinner, hall⟩
        rw [← hcode] at hall
        exact ⟨⟨code, last, hcode, hterm, hinner⟩, fun i hi => (hall i hi).1,
          fun i hi => (hall i hi).2⟩
      · intro h
        obtain ⟨code', last', hb, -, hinner⟩ := h.ending
        obtain ⟨rfl, -⟩ := List.append_inj' (hcode.symm.trans hb) rfl
        rw [← hcode]
        exact ⟨hinner, fun i hi => ⟨h.noRaw i hi, h.targets i hi⟩⟩
    · rw [if_neg hterm]
      refine ⟨nofun, fun h => ?_⟩
      obtain ⟨code', last', hb, hterm', -⟩ := h.ending
      obtain ⟨-, hsame⟩ := List.append_inj' (hcode.symm.trans hb) rfl
      exact absurd (by rw [List.head_eq_of_cons_eq hsame]; exact hterm') hterm

theorem checkTemps_eq_ok {next : Temp} {defined : List Temp} {insts : List Inst} :
    checkTemps next defined insts = .ok () ↔
      (∀ i ∈ insts, ∀ t ∈ i.uses, t ∈ defined) ∧ ∀ t ∈ definitions insts, t < next := by
  induction insts with
  | nil => simp [checkTemps, definitions]
  | cons i rest ih =>
    have huses : i.uses.find? (!defined.contains ·) = none ↔ ∀ t ∈ i.uses, t ∈ defined := by
      simp [List.find?_eq_none]
    rw [checkTemps, List.forall_mem_cons, definitions_cons]
    cases hfind : i.uses.find? (!defined.contains ·) with
    | some t =>
      have hnot : ¬ ∀ t ∈ i.uses, t ∈ defined := by
        rw [← huses, hfind]
        exact Option.some_ne_none t
      exact iff_of_false (by simp) fun h => hnot h.1.1
    | none =>
      have hall := huses.mp hfind
      cases hdef : i.def? with
      | none =>
        simp only [Option.toList_none, List.nil_append]
        rw [ih]
        exact ⟨fun h => ⟨⟨hall, h.1⟩, h.2⟩, fun h => ⟨h.1.2, h.2⟩⟩
      | some t =>
        simp only [Option.toList_some, List.singleton_append, List.forall_mem_cons]
        by_cases hrange : next ≤ t
        · rw [if_pos hrange]
          exact iff_of_false (by simp) fun h => UInt32.not_le.mpr h.2.1 hrange
        · rw [if_neg hrange, ih]
          exact ⟨fun h => ⟨⟨hall, h.1⟩, UInt32.not_le.mp hrange, h.2⟩, fun h => ⟨h.1.2, h.2.2⟩⟩

theorem checkAllTemps_eq_ok {next : Temp} {insts : List Inst} :
    checkAllTemps next insts = .ok () ↔ (definitions insts).Nodup ∧
      (∀ i ∈ insts, ∀ t ∈ i.uses, t ∈ definitions insts) ∧ ∀ t ∈ definitions insts, t < next := by
  have hnodup : firstRepeat? [] (definitions insts) = none ↔ (definitions insts).Nodup :=
    firstRepeat?_nil_eq_none
  have hdefined : insts.filterMap Inst.def? = definitions insts := rfl
  simp only [checkAllTemps, hdefined]
  cases hrepeat : firstRepeat? [] (definitions insts) with
  | some t =>
    refine iff_of_false (by simp) fun h => ?_
    rw [hnodup.mpr h.1] at hrepeat
    cases hrepeat
  | none =>
    rw [checkTemps_eq_ok]
    exact ⟨fun h => ⟨hnodup.mp hrepeat, h⟩, fun h => h.2⟩

/-- The labels of the function's blocks, in order. -/
def labels (f : Func) : List String := f.blocks.map (·.label)

/-- The function's control flow is complete, and its temporaries are defined once. -/
structure WellFormed (f : Func) : Prop where
  blocks_ne : f.blocks ≠ []
  labels : f.labels.Nodup
  closed : ∀ b ∈ f.blocks, b.Closed f.labels
  nodup : (definitions f.insts).Nodup
  reads : ∀ i ∈ f.insts, ∀ t ∈ i.uses, t ∈ definitions f.insts
  range : ∀ t ∈ definitions f.insts, t < f.nextTemp

/-- The check of a function decides whether it is well formed. -/
theorem check_iff_wellFormed {f : Func} : f.check = .ok () ↔ f.WellFormed := by
  have hlabels : firstRepeat? [] f.labels = none ↔ f.labels.Nodup := firstRepeat?_nil_eq_none
  unfold check
  by_cases hempty : f.blocks.isEmpty = true
  · rw [if_pos hempty]
    exact ⟨nofun, fun h => absurd (List.isEmpty_iff.mp hempty) h.blocks_ne⟩
  · rw [if_neg hempty]
    cases hrepeat : firstRepeat? [] f.labels with
    | some label =>
      refine ⟨fun h => ?_, fun h => ?_⟩
      · have hrepeat' : firstRepeat? [] (f.blocks.map (·.label)) = some label := hrepeat
        simp only [hrepeat'] at h
        cases h
      · rw [hlabels.mpr h.labels] at hrepeat
        cases hrepeat
    | none =>
      have hrepeat' : firstRepeat? [] (f.blocks.map (·.label)) = none := hrepeat
      simp only [hrepeat']
      show (f.blocks.forM (checkBlock f.labels) >>= fun _ =>
        (checkAllTemps f.nextTemp f.insts).mapError FuncFault.temporaries) = _ ↔ _
      rw [seq_eq_ok, forM_eq_ok, Checked.mapError_eq_ok, checkAllTemps_eq_ok]
      simp only [checkBlock_eq_ok]
      constructor
      · rintro ⟨hclosed, hnodup, hreads, hrange⟩
        exact ⟨fun h => hempty (List.isEmpty_iff.mpr h), hlabels.mp hrepeat, hclosed, hnodup,
          hreads, hrange⟩
      · exact fun h => ⟨h.closed, h.nodup, h.reads, h.range⟩

theorem verify_eq_ok {f : Func} : f.verify = .ok () ↔ f.WellFormed := by
  rw [verify, Checked.mapError_eq_ok, check_iff_wellFormed]

end Func

end FlowRecovery
