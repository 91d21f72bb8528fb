/-
The operands of assembled functions.

Lifted code holds numbers, program counters, temporaries and the handle of the state, and no
references; these are put in by resolution.  Nothing on the way from a unit to a function makes
up other operands, so functions that are assembled from such code hold no references either.

* `Plain.of_classify`, `Plain.splitStable` — classification and splits keep operands plain;
* `Assembly.Closes.plain`, `Departure.plain` — so does what assembly puts at the ends of blocks;
* `Store.BuiltOf.plain` — assembled functions have plain operands.
-/
import FlowRecovery.Proofs.Assembly.Content
import FlowRecovery.Proofs.Block.Marking
import FlowRecovery.Proofs.Store.Halting

namespace FlowRecovery

open Body (rawEnd)

/-- Whether the operand is no reference. -/
def Operand.isPlain : Operand → Bool
  | .const _ => true
  | .pc _ => true
  | .temp _ => true
  | .env => true
  | _ => false

theorem Operand.isPlain_mapTemp (f : Temp → Temp) (o : Operand) :
    (o.mapTemp f).isPlain = o.isPlain := by
  cases o <;> rfl

/-- The code holds no references. -/
def Plain (insts : List Inst) : Prop := ∀ i ∈ insts, ∀ o ∈ i.operands, o.isPlain = true

namespace Plain

variable {l m : List Inst}

theorem nil : Plain [] := fun _ hi => absurd hi List.not_mem_nil

theorem append : Plain (l ++ m) ↔ Plain l ∧ Plain m := List.forall_mem_append

theorem cons {i : Inst} : Plain (i :: l) ↔ (∀ o ∈ i.operands, o.isPlain = true) ∧ Plain l :=
  List.forall_mem_cons

/-- An instruction without operands can be put in front. -/
theorem cons_bare {i : Inst} (h : Plain l) (hi : i.operands = []) : Plain (i :: l) := by
  refine cons.mpr ⟨fun o ho => ?_, h⟩
  rw [hi] at ho
  cases ho

theorem renumber (h : Plain l) (base : Temp) : Plain (renumber base l) := by
  intro i hi o ho
  obtain ⟨j, hj, rfl⟩ := List.mem_map.mp hi
  rw [Inst.operands_mapTemps] at ho
  obtain ⟨o', ho', rfl⟩ := List.mem_map.mp ho
  rw [Operand.isPlain_mapTemp]
  exact h j hj o' ho'

/-! ### Units and their parts -/

/-- Classification adds markers, which have no operands, and the handle of the state. -/
theorem of_classify {u : Lifted} {b : Block} (hu : Plain u.body.insts)
    (hb : Block.classify u = .ok b) : Plain b.body.insts := by
  have hc := Block.classified_of_classify hb
  have hmarked : Plain u.marked.insts := by
    intro i hi o ho
    cases hmark : i.marker? with
    | some pc =>
      cases i with
      | marker _ => cases ho
      | _ => cases hmark
    | none => exact hu i ((Lifted.mem_mark hmark).mp hi) o ho
  rcases Lifted.markTransfer_cases hc.body with
    ⟨-, -, hbody⟩ | ⟨-, pre, target, post, hinsts, hbody, -⟩
  · rw [hbody]
    exact hmarked
  · rw [hinsts, append, cons] at hmarked
    rw [hbody, append, cons]
    refine ⟨hmarked.1, fun o ho => ?_, hmarked.2.2⟩
    have htarget : target.isPlain = true := hmarked.2.1 target (List.mem_singleton_self target)
    unfold Lifted.transferMarker at ho
    split at ho
    · rw [List.mem_singleton.mp ho]
      exact htarget
    · rcases List.mem_pair.mp ho with rfl | rfl
      · exact htarget
      · rfl

theorem splitStable :
    Store.SplitStable (fun _ => True) fun b => b.Sound ∧ Plain b.body.insts := by
  intro b at_ first second hb hat hs
  obtain ⟨hfirst, hsecond⟩ := Block.Sound.splitStable hb.1 hat hs
  obtain ⟨pre, post, hcut, hbefore, hfrom⟩ := hb.1.exists_parts hs.inside
  obtain ⟨hpre, -, hpost⟩ : Plain pre ∧ _ ∧ Plain post := by
    have hplain := hb.2
    rwa [hcut, append, cons] at hplain
  refine ⟨⟨hfirst, ?_⟩, hsecond, ?_⟩
  · rw [Option.some.inj (hs.body_first.symm.trans hbefore)]
    refine append.mpr ⟨hpre, cons.mpr ⟨fun o ho => ?_, nil.cons_bare rfl⟩⟩
    rw [List.mem_singleton.mp ho]
    rfl
  · -- What is carried over stands in the first part.
    obtain ⟨kept, hkept, hsub⟩ := Body.carry_eq (Body.openTemps (.marker at_ :: post)) []
      pre.reverse
    rw [Option.some.inj (hs.body_second.symm.trans hfrom), hkept, List.append_nil]
    rw [List.reverse_reverse] at hsub
    exact (append.mpr ⟨fun i hi => hpre i (hsub.subset hi), hpost⟩).cons_bare rfl

end Plain

/-! ### Functions -/

theorem plain_leave {target : Operand} (h : target.isPlain = true) : Plain (leave target) := by
  simp [leave, Plain, Inst.operands, h]

theorem Departure.plain {source : Addr} {branch : Option Operand} {e : CodeBlock}
    (h : Departure source branch e) (hbranch : ∀ o ∈ branch, o.isPlain = true) :
    Plain e.insts := by
  cases h with
  | known target => exact plain_leave rfl
  | computed htarget => exact plain_leave (hbranch _ htarget)

namespace Assembly

variable {entry : Addr} {members : AddrSet} {b : Block} {branch : Option Operand}
  {s s' : Assembly} {final : List Inst}

theorem Ending.plain (h : Ending members b branch s final s')
    (hbranch : ∀ o ∈ branch, o.isPlain = true) : Plain final := by
  have hchoice : ∀ target known cond thenLabel elseLabel, branch = some target →
      Plain (choice target known cond thenLabel elseLabel) := by
    intro target known cond thenLabel elseLabel htarget
    have hplain : target.isPlain = true := hbranch target htarget
    refine Plain.cons.mpr ⟨fun o ho => ?_, Plain.cons.mpr ⟨fun o ho => ?_, .nil⟩⟩
    · rcases List.mem_pair.mp ho with rfl | rfl
      · exact hplain
      · rfl
    · rw [List.mem_singleton.mp ho]
      rfl
  cases h with
  | onward =>
    unfold transfer
    split
    · simp [Plain, Inst.operands]
    · exact plain_leave rfl
  | depart _ htarget => exact plain_leave (hbranch _ htarget)
  | ret => simp [Plain, Inst.operands]
  | between _ _ htarget => exact hchoice _ _ _ _ _ htarget
  | known _ _ htarget => exact hchoice _ _ _ _ _ htarget

theorem Closes.plain (h : Closes entry members b branch s final s')
    (hbranch : ∀ o ∈ branch, o.isPlain = true) : Plain final := by
  rcases h with ⟨-, rfl, -⟩ | ⟨-, h⟩
  · simp [Plain, Inst.operands]
  · exact (ending_eq_ok h).plain hbranch

end Assembly

/-- The raw branch of plain code goes to a plain operand, also when it is renumbered. -/
theorem Plain.of_rawEnd {inner : List Inst} {target : Option Operand}
    (h : Plain (inner ++ rawEnd target)) (base : Temp) :
    Plain inner ∧ ∀ o ∈ target.map (Operand.mapTemp (· + base)), o.isPlain = true := by
  obtain ⟨hinner, hend⟩ := append.mp h
  refine ⟨hinner, fun o ho => ?_⟩
  obtain ⟨o', rfl, rfl⟩ := Option.map_eq_some_iff.mp ho
  rw [Operand.isPlain_mapTemp]
  exact (cons.mp hend).1 o' (List.mem_singleton_self o')

/-- A function that is made of plain code is plain. -/
theorem Func.MadeOf.plain {f : Func} {entry : Addr} {members : AddrSet} {blocks : List Block}
    {codes : List CodeBlock} {last : Assembly} (h : f.MadeOf entry members blocks codes last)
    (hblocks : ∀ b ∈ blocks, Plain b.body.insts) : Plain f.insts := by
  intro i hi
  obtain ⟨c, hc, hi⟩ := List.mem_flatMap.mp hi
  rw [h.blocks_eq] at hc
  rcases List.mem_append.mp hc with hc | hc
  · obtain ⟨b, hb, s₁, s₂, hsound, hemit⟩ := h.code_of_mem hc
    obtain ⟨inner, target, next, final, hinsts, -, -, -, hcloses, rfl⟩ :=
      Assembly.exists_of_emit hsound hemit
    obtain ⟨hinner, hbranch⟩ := Plain.of_rawEnd (hinsts ▸ hblocks b hb) s₁.nextTemp
    exact Plain.append.mpr ⟨hinner.renumber _, hcloses.plain hbranch⟩ i hi
  · obtain ⟨b, hb, code, -, s₁, s₂, hsound, hemit, hserves⟩ := h.exit_of_mem hc
    obtain ⟨inner, target, next, final, hinsts, -, htarget, -⟩ :=
      Assembly.exists_of_emit hsound hemit
    refine hserves.departs.plain ?_ i hi
    rw [htarget]
    exact (Plain.of_rawEnd (hinsts ▸ hblocks b hb) s₁.nextTemp).2

/-- Functions that are assembled from units without references have none. -/
theorem Store.BuiltOf.plain {s : Store} (hs : s.BuiltOf fun u => Plain u.body.insts)
    {naming : Naming} {entries : AddrSet} {entry : Addr} {f : Func}
    (h : s.assemble naming entries entry = .ok f) : Plain f.insts := by
  have hstored : ∀ k b, s.get? k = some b → Plain b.body.insts := by
    intro k b hget
    refine ((hs.everywhere Plain.splitStable fun u b hu hb => ?_).stored k b hget).2.2.2
    exact ⟨trivial, .of_classified (Block.classified_of_classify hb), .of_classify hu hb⟩
  obtain ⟨codes, last, hmade⟩ := hs.sound.madeOf h
  refine hmade.plain fun b hb => ?_
  obtain ⟨k, -, hget⟩ := mem_functionBlocks.mp hb
  exact hstored k b hget

end FlowRecovery
