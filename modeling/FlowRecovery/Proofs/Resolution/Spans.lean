/-
Numbers behind markers.

A relocation replaces the first number of its value behind the marker of its instruction.
Two relocations do not disturb each other: what stands in the place of a number is no
number, so the one does not take what the other looks for, and markers stay where they are.

* `replaceInSpan_comm` — two numbers behind the same marker;
* `editAt` — the search for the marker as a partial function, `editAt_replaceInSpan` — which
  is what `replaceAt` does;
* `Resolver.editAt_comm` — two numbers behind any markers;
* `Resolver.oneReplaced_of_editAt` — a search that succeeds replaces one operand.
-/
import FlowRecovery.Block.Split
import FlowRecovery.Proofs.Resolution.Rewritten

namespace FlowRecovery

/-! ### Two numbers in the same instruction -/

section Exchange

variable {a b c d : Operand} (hac : a ≠ c) (hbc : b ≠ c) (hda : d ≠ a)

include hac hbc in
theorem mem_replace_iff (l : List Operand) : c ∈ l.replace a b ↔ c ∈ l := by
  induction l with
  | nil => rfl
  | cons x l ih =>
    rw [List.replace_cons]
    split
    · next hx =>
      rw [beq_iff_eq] at hx
      simp [← hx, hac.symm, hbc.symm]
    · rw [List.mem_cons, ih, List.mem_cons]

include hac hbc hda in
theorem replace_comm (l : List Operand) :
    (l.replace a b).replace c d = (l.replace c d).replace a b := by
  induction l with
  | nil => rfl
  | cons x l ih =>
    have hca := beq_false_of_ne hac.symm
    have hcb := beq_false_of_ne hbc.symm
    have had := beq_false_of_ne hda.symm
    by_cases hxa : a = x
    · subst hxa
      simp [List.replace_cons, hca, hcb]
    · by_cases hxc : c = x
      · subst hxc
        simp [List.replace_cons, beq_false_of_ne hac, had]
      · simp [List.replace_cons, beq_false_of_ne hxa, beq_false_of_ne hxc, ih]

end Exchange

theorem Inst.marker?_setOperands (i : Inst) (operands : List Operand) :
    (i.setOperands operands).marker? = i.marker? := by
  unfold setOperands
  split <;> rfl

namespace Inst

variable {a b c d : Operand} {i j : Inst}

theorem replaceOperand_eq_some (h : i.replaceOperand a b = some j) :
    a ∈ i.operands ∧ j = i.setOperands (i.operands.replace a b) := by
  unfold replaceOperand at h
  split at h
  · next hmem => exact ⟨List.contains_iff_mem.mp hmem, (Option.some.inj h).symm⟩
  · cases h

theorem replaceOperand_eq_none : i.replaceOperand a b = none ↔ a ∉ i.operands := by
  unfold replaceOperand
  split <;> simp_all

theorem operands_of_replaceOperand (h : i.replaceOperand a b = some j) :
    j.operands = i.operands.replace a b := by
  rw [(replaceOperand_eq_some h).2, operands_setOperands i _ List.length_replace]

theorem marker?_of_replaceOperand (h : i.replaceOperand a b = some j) : j.marker? = i.marker? := by
  rw [(replaceOperand_eq_some h).2, marker?_setOperands]

/-- Replacing one number does not take another. -/
theorem replaceOperand_of_replaceOperand (hac : a ≠ c) (hbc : b ≠ c)
    (h : i.replaceOperand a b = some j) :
    j.replaceOperand c d = none ↔ i.replaceOperand c d = none := by
  rw [replaceOperand_eq_none, replaceOperand_eq_none, operands_of_replaceOperand h,
    mem_replace_iff hac hbc]

theorem replaceOperand_comm (hac : a ≠ c) (hbc : b ≠ c) (hda : d ≠ a) {k : Inst}
    (hj : i.replaceOperand a b = some j) (hk : i.replaceOperand c d = some k) :
    j.replaceOperand c d = k.replaceOperand a b := by
  have hjc : c ∈ j.operands := by
    rw [operands_of_replaceOperand hj, mem_replace_iff hac hbc]
    exact (replaceOperand_eq_some hk).1
  have hka : a ∈ k.operands := by
    rw [operands_of_replaceOperand hk, mem_replace_iff hac.symm hda]
    exact (replaceOperand_eq_some hj).1
  rw [replaceOperand, replaceOperand, if_pos (List.contains_iff_mem.mpr hjc),
    if_pos (List.contains_iff_mem.mpr hka), operands_of_replaceOperand hj,
    operands_of_replaceOperand hk, replace_comm hac hbc hda, (replaceOperand_eq_some hj).2,
    (replaceOperand_eq_some hk).2, setOperands_setOperands i _ (by simp),
    setOperands_setOperands i _ (by simp)]

end Inst

section Spans

variable {a b c d : Operand} {i j : Inst} {rest : List Inst}

theorem replaceInSpan_of_marker (h : i.marker?.isSome = true) :
    replaceInSpan a b (i :: rest) = none := by
  rw [replaceInSpan, if_pos h]

theorem replaceInSpan_of_some (hi : i.marker? = none) (h : i.replaceOperand a b = some j) :
    replaceInSpan a b (i :: rest) = some (j :: rest) := by
  rw [replaceInSpan, hi, if_neg (by simp), h]

theorem replaceInSpan_of_none (hi : i.marker? = none) (h : i.replaceOperand a b = none) :
    replaceInSpan a b (i :: rest) = (replaceInSpan a b rest).map (i :: ·) := by
  rw [replaceInSpan, hi, if_neg (by simp), h]

/-- Two numbers behind one marker are replaced in any order. -/
theorem replaceInSpan_comm (hac : a ≠ c) (hbc : b ≠ c) (hda : d ≠ a) (l : List Inst) :
    (replaceInSpan a b l).bind (replaceInSpan c d)
      = (replaceInSpan c d l).bind (replaceInSpan a b) := by
  induction l with
  | nil => rfl
  | cons i rest ih =>
    cases hi : i.marker? with
    | some pc =>
      rw [replaceInSpan_of_marker (by simp [hi]), replaceInSpan_of_marker (by simp [hi])]
      rfl
    | none =>
      cases hj : i.replaceOperand a b with
      | none =>
        cases hk : i.replaceOperand c d with
        | none =>
          -- The numbers are looked for behind this instruction.
          exact exchange_of_parts (fun _ => replaceInSpan_of_none hi hj)
            (fun _ => replaceInSpan_of_none hi hk) ih
        | some k =>
          have hik := Inst.marker?_of_replaceOperand hk
          have hkj := (Inst.replaceOperand_of_replaceOperand hac.symm hda hk).mpr hj
          rw [replaceInSpan_of_none hi hj, replaceInSpan_of_some hi hk, Option.bind_some,
            replaceInSpan_of_none (hik.trans hi) hkj, Option.bind_map]
          simp only [Function.comp_def, replaceInSpan_of_some hi hk]
          exact Option.map_eq_bind.symm
      | some j =>
        have hij := Inst.marker?_of_replaceOperand hj
        cases hk : i.replaceOperand c d with
        | none =>
          have hjk := (Inst.replaceOperand_of_replaceOperand hac hbc hj).mpr hk
          rw [replaceInSpan_of_none hi hk, replaceInSpan_of_some hi hj, Option.bind_some,
            replaceInSpan_of_none (hij.trans hi) hjk, Option.bind_map]
          simp only [Function.comp_def, replaceInSpan_of_some hi hj]
          exact Option.map_eq_bind
        | some k =>
          have hik := Inst.marker?_of_replaceOperand hk
          obtain ⟨both, hboth⟩ := Option.ne_none_iff_exists'.mp fun hnone =>
            Option.some_ne_none k (hk.symm.trans
              ((Inst.replaceOperand_of_replaceOperand hac hbc hj).mp hnone))
          have hboth' := (Inst.replaceOperand_comm hac hbc hda hj hk).symm.trans hboth
          rw [replaceInSpan_of_some hi hj, replaceInSpan_of_some hi hk, Option.bind_some,
            Option.bind_some, replaceInSpan_of_some (hij.trans hi) hboth,
            replaceInSpan_of_some (hik.trans hi) hboth']

end Spans

/-! ### Two relocations in the same code -/

/-- Change what follows the marker of an instruction, if it is there. -/
def editAt (pc : Addr) (edit : List Inst → Option (List Inst)) : List Inst → Option (List Inst)
  | [] => some []
  | i :: rest => (if i.marker? = some pc then edit rest else editAt pc edit rest).map (i :: ·)

namespace Resolver

variable (r : Resolver)

/-- What a relocation with the value does behind the marker of its instruction. -/
def edit (value : Word) (insts : List Inst) : Option (List Inst) :=
  (r.classify value).bind fun new => replaceInSpan (.const value) new insts

variable {r}

theorem edit_of_none {v : Word} (h : r.classify v = none) : r.edit v = fun _ => none := by
  funext l
  rw [edit, h]
  rfl

theorem edit_of_some {v : Word} {new : Operand} (h : r.classify v = some new) :
    r.edit v = replaceInSpan (.const v) new := by
  funext l
  rw [edit, h]
  rfl

theorem edit_comm (v w : Word) (l : List Inst) :
    (r.edit v l).bind (r.edit w) = (r.edit w l).bind (r.edit v) := by
  by_cases hvw : v = w
  · rw [hvw]
  · cases hv : r.classify v with
    | none => simp [edit_of_none hv]
    | some b =>
      cases hw : r.classify w with
      | none => simp [edit_of_none hw]
      | some d =>
        rw [edit_of_some hv, edit_of_some hw]
        exact replaceInSpan_comm (fun heq => hvw (Operand.const.inj heq))
          ((classify_eq_some hv).2 w) ((classify_eq_some hw).2 v) l

/-- A number behind one marker and a number behind another that follows. -/
theorem edit_editAt_comm (v w : Word) (pc : Addr) (l : List Inst) :
    (r.edit v l).bind (editAt pc (r.edit w)) = (editAt pc (r.edit w) l).bind (r.edit v) := by
  cases hv : r.classify v with
  | none => simp [edit_of_none hv]
  | some new =>
    rw [edit_of_some hv]
    induction l with
    | nil => rfl
    | cons i rest ih =>
      cases hi : i.marker? with
      | some a =>
        -- The first span is empty.
        have hmarker : i.marker?.isSome = true := by simp [hi]
        rw [replaceInSpan_of_marker hmarker, editAt]
        cases (if i.marker? = some pc then r.edit w rest else editAt pc (r.edit w) rest) with
        | none => rfl
        | some rest' => exact (replaceInSpan_of_marker hmarker).symm
      | none =>
        have hbehind : ∀ (j : Inst) (rest : List Inst), j.marker? = none →
            editAt pc (r.edit w) (j :: rest) = (editAt pc (r.edit w) rest).map (j :: ·) := by
          intro j rest hj
          rw [editAt, hj, if_neg nofun]
        cases hj : i.replaceOperand (.const v) new with
        | none =>
          exact exchange_of_parts (fun _ => replaceInSpan_of_none hi hj)
            (fun rest => hbehind i rest hi) ih
        | some j =>
          rw [replaceInSpan_of_some hi hj, Option.bind_some, hbehind i rest hi,
            hbehind j rest ((Inst.marker?_of_replaceOperand hj).trans hi), Option.bind_map]
          simp only [Function.comp_def, replaceInSpan_of_some hi hj]
          exact Option.map_eq_bind

theorem editAt_comm (v w : Word) (a b : Addr) (l : List Inst) :
    (editAt a (r.edit v) l).bind (editAt b (r.edit w))
      = (editAt b (r.edit w) l).bind (editAt a (r.edit v)) := by
  induction l with
  | nil => rfl
  | cons i rest ih =>
    have hhere : ∀ (pc : Addr) (v : Word), i.marker? = some pc → ∀ rest,
        editAt pc (r.edit v) (i :: rest) = (r.edit v rest).map (i :: ·) := by
      intro pc v hi rest
      rw [editAt, if_pos hi]
    have hbehind : ∀ (pc : Addr) (v : Word), ¬ i.marker? = some pc → ∀ rest,
        editAt pc (r.edit v) (i :: rest) = (editAt pc (r.edit v) rest).map (i :: ·) := by
      intro pc v hi rest
      rw [editAt, if_neg hi]
    by_cases ha : i.marker? = some a
    · by_cases hb : i.marker? = some b
      · exact exchange_of_parts (hhere a v ha) (hhere b w hb) (edit_comm v w rest)
      · exact exchange_of_parts (hhere a v ha) (hbehind b w hb) (edit_editAt_comm v w b rest)
    · by_cases hb : i.marker? = some b
      · exact exchange_of_parts (hbehind a v ha) (hhere b w hb) (edit_editAt_comm w v a rest).symm
      · exact exchange_of_parts (hbehind a v ha) (hbehind b w hb) ih

end Resolver

/-! ### What a search answers -/

theorem mem_markers_cons {pc : Addr} {i : Inst} {rest : List Inst} :
    pc ∈ markers (i :: rest) ↔ i.marker? = some pc ∨ pc ∈ markers rest := by
  simp only [markers, List.mem_filterMap, List.mem_cons, exists_eq_or_imp]

section Sites

variable {pc : Addr} {old new : Operand} {l : List Inst}

theorem editAt_of_not_mem (edit : List Inst → Option (List Inst)) (h : pc ∉ markers l) :
    editAt pc edit l = some l := by
  induction l with
  | nil => rfl
  | cons i rest ih =>
    obtain ⟨hi, hrest⟩ := not_or.mp fun hmem => h (mem_markers_cons.mpr hmem)
    rw [editAt, if_neg hi, ih hrest]
    rfl

theorem replaceAt_of_not_mem (h : pc ∉ markers l) : replaceAt pc old new l = .absent := by
  induction l with
  | nil => rfl
  | cons i rest ih =>
    obtain ⟨hi, hrest⟩ := not_or.mp fun hmem => h (mem_markers_cons.mpr hmem)
    rw [replaceAt, if_neg hi, ih hrest]
    rfl

/-- What the search for a number answers is what the change behind the marker does. -/
theorem editAt_replaceInSpan (old new : Operand) (h : pc ∈ markers l) :
    (replaceAt pc old new l = .missing ∧ editAt pc (replaceInSpan old new) l = none) ∨
      ∃ l', replaceAt pc old new l = .found l' ∧ editAt pc (replaceInSpan old new) l = some l' := by
  induction l with
  | nil => cases h
  | cons i rest ih =>
    rw [replaceAt, editAt]
    by_cases hi : i.marker? = some pc
    · rw [if_pos hi, if_pos hi]
      cases replaceInSpan old new rest with
      | none => exact Or.inl ⟨rfl, rfl⟩
      | some rest' => exact Or.inr ⟨i :: rest', rfl, rfl⟩
    · rw [if_neg hi, if_neg hi]
      rcases ih ((mem_markers_cons.mp h).resolve_left hi) with
        ⟨hsite, hedit⟩ | ⟨rest', hsite, hedit⟩
      · rw [hsite, hedit]
        exact Or.inl ⟨rfl, rfl⟩
      · rw [hsite, hedit]
        exact Or.inr ⟨i :: rest', rfl, rfl⟩

theorem editAt_none (h : pc ∈ markers l) : editAt pc (fun _ => none) l = none := by
  induction l with
  | nil => cases h
  | cons i rest ih =>
    rw [editAt]
    by_cases hi : i.marker? = some pc
    · rw [if_pos hi]
      rfl
    · rw [if_neg hi, ih ((mem_markers_cons.mp h).resolve_left hi)]
      rfl

end Sites

/-! ### What a search changes -/

theorem markers_replaceInSpan {a b : Operand} {l l' : List Inst}
    (h : replaceInSpan a b l = some l') : markers l' = markers l := by
  induction l generalizing l' with
  | nil => cases h
  | cons i rest ih =>
    rw [replaceInSpan] at h
    split at h
    · cases h
    · split at h
      · next j hj =>
        cases h
        simp only [markers, List.filterMap_cons, Inst.marker?_of_replaceOperand hj]
      · obtain ⟨rest', hrest, rfl⟩ := Option.map_eq_some_iff.mp h
        have ih := ih hrest
        rw [markers] at ih ⊢
        rw [List.filterMap_cons, ih, markers, markers, List.filterMap_cons]

/-- In the code of the machine instruction at `pc`, one operand is replaced. -/
inductive OneReplaced (pc : Addr) (old new : Operand) : List Inst → List Inst → Prop
  | mk (before : List Inst) {span after : List Inst} {i : Inst} {ops ops' : List Operand}
      (hspan : markers span = []) (hi : i.marker? = none) (hops : i.operands = ops ++ old :: ops') :
      OneReplaced pc old new (before ++ .marker pc :: (span ++ i :: after))
        (before ++ .marker pc :: (span ++ i.setOperands (ops ++ new :: ops') :: after))

/-- The first number is replaced. -/
theorem exists_of_replaceInSpan {old new : Operand} {l l' : List Inst}
    (h : replaceInSpan old new l = some l') :
    ∃ span i after ops ops', l = span ++ i :: after ∧ markers span = [] ∧ i.marker? = none ∧
      i.operands = ops ++ old :: ops' ∧
      l' = span ++ i.setOperands (ops ++ new :: ops') :: after := by
  induction l generalizing l' with
  | nil => cases h
  | cons i rest ih =>
    cases hi : i.marker? with
    | some pc =>
      rw [replaceInSpan_of_marker (by simp [hi])] at h
      cases h
    | none =>
      cases hj : i.replaceOperand old new with
      | some j =>
        rw [replaceInSpan_of_some hi hj] at h
        cases h
        obtain ⟨hmem, rfl⟩ := Inst.replaceOperand_eq_some hj
        obtain ⟨ops, ops', hops, hfirst⟩ := List.eq_append_cons_of_mem hmem
        refine ⟨[], i, rest, ops, ops', rfl, rfl, hi, hops, ?_⟩
        rw [hops, List.replace_append_right hfirst, List.replace_cons_self]
        rfl
      | none =>
        rw [replaceInSpan_of_none hi hj] at h
        obtain ⟨rest', hrest, rfl⟩ := Option.map_eq_some_iff.mp h
        obtain ⟨span, k, after, ops, ops', rfl, hspan, hk, hops, rfl⟩ := ih hrest
        refine ⟨i :: span, k, after, ops, ops', rfl, ?_, hk, hops, rfl⟩
        rw [markers, List.filterMap_cons_none hi]
        exact hspan

namespace Resolver

variable {r : Resolver} {pc : Addr} {v : Word} {l l' : List Inst}

theorem markers_editAt (h : editAt pc (r.edit v) l = some l') :
    markers l' = markers l := by
  induction l generalizing l' with
  | nil =>
    cases h
    rfl
  | cons i rest ih =>
    obtain ⟨rest', hrest, rfl⟩ := Option.map_eq_some_iff.mp h
    have hmarkers : markers rest' = markers rest := by
      split at hrest
      · obtain ⟨new, -, hspan⟩ := Option.bind_eq_some_iff.mp hrest
        exact markers_replaceInSpan hspan
      · exact ih hrest
    rw [markers] at hmarkers ⊢
    rw [List.filterMap_cons, hmarkers, markers, markers, List.filterMap_cons]

theorem oneReplaced_of_editAt (hmem : pc ∈ markers l)
    (h : editAt pc (r.edit v) l = some l') :
    ∃ new, r.classify v = some new ∧ OneReplaced pc (.const v) new l l' := by
  induction l generalizing l' with
  | nil => cases hmem
  | cons i rest ih =>
    obtain ⟨rest', hrest, rfl⟩ := Option.map_eq_some_iff.mp h
    split at hrest
    · next hi =>
      obtain rfl : i = .marker pc := by
        cases i <;> cases hi
        rfl
      obtain ⟨new, hnew, hspan⟩ := Option.bind_eq_some_iff.mp hrest
      obtain ⟨span, k, after, ops, ops', rfl, hmarkers, hk, hops, rfl⟩ :=
        exists_of_replaceInSpan hspan
      exact ⟨new, hnew, .mk [] hmarkers hk hops⟩
    · next hi =>
      obtain ⟨new, hnew, hone⟩ := ih ((mem_markers_cons.mp hmem).resolve_left hi) hrest
      cases hone with
      | mk before hspan hk hops => exact ⟨new, hnew, .mk (i :: before) hspan hk hops⟩

end Resolver

end FlowRecovery
