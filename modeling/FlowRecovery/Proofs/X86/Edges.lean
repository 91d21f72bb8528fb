/-
The edges of functions that are assembled from lifted units.

The raw branch of a lifted unit is as precise as its kind (`Aims.precise`): it falls
through, or chooses to go on, right behind the unit, and what it computes is no literal.
So the successors of its blocks are where their code goes, and a function that is
assembled from such blocks has no block that cannot be reached.

* `precise_of_lift` — the raw branches of lifted units;
* `Store.LiftedBy` — stores that hold blocks of the units of one lifter;
* `edges_agree` — successors, labels and departures.
-/
import FlowRecovery.Proofs.Assembly.Successors
import FlowRecovery.Proofs.Exploration.Turns
import FlowRecovery.Proofs.X86.Units

namespace FlowRecovery

open Body (rawEnd)

/-- A body whose code aims at its raw branch is as precise as its kind. -/
theorem Aims.precise {b : Body} {code : List Inst} {next : Addr} {target : Operand}
    {kind : BlockKind} (h : Aims code next target kind)
    (hb : b.insts = code ++ rawEnd (some target)) (hinner : ∀ i ∈ code, i.isInner = true)
    (hnodup : (definitions b.insts).Nodup) : b.Precise next kind := by
  have htarget : b.branchTarget? = some target := Body.branchTarget?_of_rawEnd hb hinner
  have hselect : ∀ {t cond x y}, target = .temp t → .select t cond x y ∈ code →
      b.staticTargets = [x, y].filterMap Operand.pc? := by
    rintro t cond x y rfl hmem
    exact Body.staticTargets_of_select htarget (Body.definition?_of_mem_select hb hnodup hmem)
  cases kind with
  | fallthrough =>
    obtain rfl := h
    exact Body.staticTargets_of_pc htarget
  | jump =>
    obtain ⟨v, rfl⟩ := h
    exact ⟨v, Body.staticTargets_of_pc htarget⟩
  | condJump =>
    obtain ⟨t, cond, v, ht, hmem⟩ := h
    exact ⟨v, hselect ht hmem⟩
  | repeatedOp =>
    obtain ⟨t, cond, v, ht, hmem⟩ := h
    exact ⟨v, hselect ht hmem⟩
  | condJumpIndirect =>
    obtain ⟨t, cond, x, ht, hx, hmem⟩ := h
    refine ⟨?_, ?_⟩
    · rw [hselect ht hmem, List.filterMap_cons_none hx]
      rfl
    · intro v hv
      rw [htarget, ht] at hv
      cases hv
  | jumpIndirect =>
    intro v hv
    rw [htarget, Option.some.injEq] at hv
    rw [Aims, hv] at h
    cases h
  | _ => trivial

namespace X86

variable {decode : Decoder} {image : Image} {limit : Nat} {a : Addr} {u : Lifted} {b : Block}

/-- The raw branch of a unit that was accepted is as precise as its kind. -/
theorem precise_of_lift (hu : lift decode image limit a = .ok u)
    (hb : Block.classify u = .ok b) : u.body.Precise (u.address + u.size) u.kind := by
  have hc := Block.classified_of_classify hb
  have hnodup : (definitions u.body.insts).Nodup := by
    rw [← hc.definitions_eq]
    exact (Block.Sound.of_classified hc).lawful.nodup
  obtain ⟨l, hl, rfl⟩ := lift_eq_ok.mp hu
  obtain ⟨-, honly, -⟩ := trace_of_unitInsns hl
  have hlimit : a + (behind a l - a) = behind a l := by
    rw [UInt64.add_comm, UInt64.sub_add_cancel]
  show Body.Precise _ (a + (behind a l - a)) _
  rw [hlimit]
  exact (aimed_lowerAll image.arch a honly 0).precise (insts_unitOf _ _ _)
    (isInner_lowerAll _ _ _ _) hnodup

theorem exact_of_lift (hu : lift decode image limit a = .ok u) (h : b.From u) : b.Exact := by
  have ⟨_, hwhole, _⟩ := h
  exact h.exact (precise_of_lift hu hwhole)

end X86

/-- The store is made by inserting blocks of units that the lifter answered with. -/
abbrev Store.LiftedBy (lift : LiftFn) : Store → Prop := BuiltOf fun u => ∃ a, lift a = .ok u

namespace X86

open Assembly

/-- **Successors and emitted edges agree.**  Every label of a block that the code of a block
names is that of a successor.  For blocks of units that the lifter answered with, the
labels of blocks that are named are those of the successors that are members, and control
leaves the function for the other successors.  So in a function that is assembled from
such blocks every block can be reached from the first one. -/
theorem edges_agree (decode : Decoder) (image : Image) (limit : Nat) :
    (∀ (u : Lifted) (b : Block) (entry : Addr) (members : AddrSet) (s s' : Assembly)
      (code : CodeBlock), b.From u → emit entry members b s = .ok (code, s') →
      ∀ a, blockLabel a ∈ code.targets → a ∈ b.successors) ∧
    (∀ (entry : Addr) (members : AddrSet) (blocks : List Block) (codes : List CodeBlock)
      (last : Assembly), (∀ b ∈ blocks, ∃ u, b.From u) → (blocks.map (·.address)).Nodup →
      emitAll entry members {} blocks = .ok (codes, last) →
      ∀ b ∈ blocks, (∃ a u, lift decode image limit a = .ok u ∧ b.From u) →
      ∃ code ∈ codes, code.label = blockLabel b.address ∧
        (∀ a, blockLabel a ∈ code.targets ↔ a ∈ b.successors ∧ a ∈ members) ∧
        ∀ v, code.LeavesFor last.exits v ↔ v ∈ b.successors ∧ v ∉ members) ∧
    ∀ (s : Store) (naming : Naming) (entries : AddrSet) (entry : Addr) (f : Func),
      s.LiftedBy (lift decode image limit) → s.assemble naming entries entry = .ok f →
      ∃ first, f.blocks.head? = some first ∧
        ∀ c ∈ f.blocks, Relation.ReflTransGen f.Goes first c := by
  refine ⟨?_, ?_, ?_⟩
  · intro u b entry members s s' code hfrom hemit a ha
    have hbounded := hfrom.bounded
    exact hbounded.successors a
      ((mem_targets_emit hbounded.sound hemit _).mp ha).of_blockLabel.1
  · intro entry members blocks codes last hfrom hnodup hemitAll b hb hlifted
    obtain ⟨a, u, hu, hbu⟩ := hlifted
    have hexact := exact_of_lift hu hbu
    have hmade : Func.MadeOf { name := "", address := entry, blocks := codes ++ last.exits
                               nextTemp := last.nextTemp } entry members blocks codes last :=
      ⟨fun b hb => (hfrom b hb).elim fun _ h => h.sound, hnodup, hemitAll, rfl⟩
    obtain ⟨code, hcode, s₁, s₂, hemit⟩ := (emitted_of_emitAll hemitAll).2 b hb
    exact ⟨code, hcode, label_of_emit hemit, blockLabel_mem_iff hexact hemit,
      hmade.leavesFor_iff hb hexact hcode hemit⟩
  · intro s naming entries entry f hlifted hf
    refine hlifted.sound.reaches_blocks ?_ hf
    intro k b hget
    have hall : Store.Everywhere (fun _ => True) Block.Exact (s, []) := by
      refine hlifted.everywhere Block.Exact.splitStable fun u b hu hb => ⟨trivial, ?_⟩
      obtain ⟨a, hu⟩ := hu
      exact Block.exact_of_classify (precise_of_lift hu hb) hb
    exact (hall.stored k b hget).2.2

end X86

/-- A loop of an instruction that does nothing and a conditional jump back to it. -/
def X86.Decoder.spin : Decoder := fun a =>
  if a = 16 then some { size := 1, mnemonic := "nop" }
  else if a = 17 then
    some { size := 2, mnemonic := "jne", jumps := true, args := [{ place := .imm 16, size := 8 }] }
  else none

/-- The section that holds it. -/
def Image.spin : Image :=
  { arch := .x86_64
    sections := [{ name := ".text", address := 16, size := 3, executable := true
                   writable := false, data := none }] }

/-- The block of the loop. -/
def Block.spin : Block :=
  { address := 16, size := 3, kind := .condJump, successors := .ofList [16, 19]
    body :=
      { insts := [.marker 16, .setPc 16, .marker 17, .setPc 17, .helper (some 0) "cond_jne" [],
          .select 1 (.temp 0) (.pc 16) (.pc 19), .branch (.temp 1), .exit]
        nextTemp := 2 } }

/-- The block without the jump. -/
def Block.spinFirst : Block :=
  { address := 16, size := 1, kind := .fallthrough, successors := .singleton 17
    body := { insts := [.marker 16, .setPc 16, .branch (.pc 17), .exit], nextTemp := 2 } }

/-- The block of the jump. -/
def Block.spinSecond : Block :=
  { address := 17, size := 2, kind := .condJump, successors := .ofList [16, 19]
    body :=
      { insts := [.marker 17, .setPc 17, .helper (some 0) "cond_jne" [],
          .select 1 (.temp 0) (.pc 16) (.pc 19), .branch (.temp 1), .exit]
        nextTemp := 2 } }

theorem X86.lift_spin : Block.lift (lift .spin .spin 2) 16 = .ok .spin ∧
    Block.lift (lift .spin .spin 2) 17 = .ok .spinSecond := by
  constructor <;> decide +kernel

/-- The second half of the loop goes back to the first or leaves for the address behind it.
The function that is assembled after the unit of the jump has split the loop reaches both
halves and the block through which control leaves. -/
theorem X86.edges_agree_spin :
    (∃ codes last, Assembly.emitAll 16 (.ofList [16, 17]) {} [.spinFirst, .spinSecond] =
        .ok (codes, last) ∧
      ∃ code ∈ codes, code.label = "bb_11" ∧ "bb_10" ∈ code.targets ∧
        code.LeavesFor last.exits 19) ∧
    ∃ (s : Store) (f : Func), s.LiftedBy (lift .spin .spin 2) ∧ s.assemble {} ∅ 16 = .ok f ∧
      f.labels = ["bb_10", "bb_11", "bb_11_exit_13"] ∧
      ∃ first, f.blocks.head? = some first ∧
        ∀ c ∈ f.blocks, Relation.ReflTransGen f.Goes first c := by
  obtain ⟨u, hu, hwhole⟩ := Block.lift_eq_ok lift_spin.1
  obtain ⟨v, hv, hjump⟩ := Block.lift_eq_ok lift_spin.2
  have hsplit : Block.spin.split 17 = .ok (.spinFirst, .spinSecond) := by decide
  have hsecond := (Block.From.whole hwhole).second hsplit
  obtain ⟨-, hedges, hreach⟩ := edges_agree .spin .spin 2
  refine ⟨?_, ?_⟩
  · have hfrom : ∀ b ∈ [Block.spinFirst, .spinSecond], ∃ u, b.From u := by
      simp only [List.forall_mem_cons]
      exact ⟨⟨u, (Block.From.whole hwhole).first hsplit⟩, ⟨u, hsecond⟩, nofun⟩
    obtain ⟨code, hcode, hlabel, hinside, houtside⟩ := hedges 16 (.ofList [16, 17]) _ _ _ hfrom
      (by decide) rfl .spinSecond (by simp) ⟨16, u, hu, hsecond⟩
    exact ⟨_, _, rfl, code, hcode, hlabel, (hinside 16).mpr (by decide),
      (houtside 19).mpr (by decide)⟩
  · have hlifted : Store.LiftedBy (lift .spin .spin 2) _ :=
      (Store.BuiltOf.empty.insert ⟨16, hu⟩ hwhole).insert ⟨17, hv⟩ hjump
    have hlabels : (((({} : Store).insert .spin).1.insert .spinSecond).1.assemble {} ∅ 16).map
        Func.labels = .ok ["bb_10", "bb_11", "bb_11_exit_13"] := by decide +kernel
    obtain ⟨f, hf, hlabels⟩ := Checked.map_eq_ok.mp hlabels
    exact ⟨_, f, hlifted, hf, hlabels, hreach _ _ _ _ f hlifted hf⟩

end FlowRecovery
