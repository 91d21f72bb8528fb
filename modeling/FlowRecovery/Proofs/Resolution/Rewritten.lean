/-
What resolution does to the code of a module.

Resolution works in place: a module that it accepts has the functions, blocks, labels
and instructions it had before.  A number that stands for something has become the
reference to it and denotes the same address; call markers have become calls; nothing
else has changed.

The relocations are patched before all numbers are replaced, and by the same
references.  So patching does not show in the outcome: a patched function is replaced
by the same function as the one that it was made from.

* `map_replaceInFunc_patchAll` — patching does not change what functions are replaced by;
* `forall₂_resolveCalls` — the calls of all functions, instruction by instruction;
* `Module.resolve_rewrites` — the functions of a resolved module against those it had.
-/
import FlowRecovery.Proofs.Lists
import FlowRecovery.Resolution.Passes

namespace FlowRecovery

/-- The operand that resolution puts in the place of another. -/
inductive Operand.Resolves (r : Resolver) : Operand → Operand → Prop
  /-- Only a number that stands for nothing stays a number. -/
  | kept {o : Operand} (h : ∀ v, o = .const v → r.classify v = none) : Resolves r o o
  /-- A reference denotes the number that it replaces. -/
  | replaced {v : Word} {o : Operand} (h : r.classify v = some o)
      (address : o.staticAddress? = some v) : Resolves r (.const v) o

/-- Whether the instruction is a call that is not resolved. -/
def Inst.isCallMarker : Inst → Bool
  | .callMarker _ _ _ => true
  | _ => false

/-- The instruction that resolution puts in the place of another. -/
inductive Inst.Resolves (r : Resolver) : Inst → Inst → Prop
  /-- Everything but the operands of an instruction stays. -/
  | kept {i : Inst} {operands : List Operand}
      (h : i.isCallMarker = false)
      (each : List.Forall₂ (Operand.Resolves r) i.operands operands) :
      Resolves r i (i.setOperands operands)
  /-- A call marker becomes a call, with the target if it is indirect. -/
  | called {target state state' : Operand} {isStatic : Bool} {callee : Callee}
      (hs : Operand.Resolves r state state')
      (ht : ∀ o, callee = .indirect o → Operand.Resolves r target o) :
      Resolves r (.callMarker target isStatic state) (.call callee state')

/-- Two blocks with the same label and as many instructions, which are resolved in place. -/
structure CodeBlock.Resolves (r : Resolver) (b b' : CodeBlock) : Prop where
  label : b'.label = b.label
  insts : List.Forall₂ (Inst.Resolves r) b.insts b'.insts

/-- The same function with its blocks resolved in place. -/
structure Func.Resolves (r : Resolver) (f f' : Func) : Prop where
  name : f'.name = f.name
  address : f'.address = f.address
  nextTemp : f'.nextTemp = f.nextTemp
  blocks : List.Forall₂ (CodeBlock.Resolves r) f.blocks f'.blocks

namespace Resolver

variable {r : Resolver}

theorem classify_eq_some {v : Word} {o : Operand} (h : r.classify v = some o) :
    o.staticAddress? = some v ∧ ∀ w, o ≠ .const w := by
  unfold classify at h
  split at h
  · cases h
    exact ⟨rfl, nofun⟩
  · split at h
    · cases h
      exact ⟨rfl, nofun⟩
    · obtain ⟨s, -, rfl⟩ := Option.map_eq_some_iff.mp h
      exact ⟨rfl, nofun⟩

/-- A number that stands for nothing is the address of nothing. -/
theorem classify_eq_none {v : Word} : r.classify v = none ↔
    r.functions.get? v = none ∧ r.image.imports.get? v = none ∧
      ∀ s ∈ r.image.sections, s.contains v = false := by
  unfold classify
  cases r.functions.get? v <;> cases r.image.imports.get? v <;> simp [Image.sectionAt?]

theorem replaceOperand_of_classify {v : Word} {o : Operand} (h : r.classify v = some o) :
    r.replaceOperand (.const v) = r.replaceOperand o := by
  have ho := (classify_eq_some h).2
  rw [replaceOperand, h, Option.getD_some, replaceOperand]
  intro w
  exact ho w

theorem resolves_replaceOperand (o : Operand) : Operand.Resolves r o (r.replaceOperand o) := by
  unfold replaceOperand
  split
  · next v =>
    cases h : r.classify v with
    | none =>
      refine .kept fun w hw => ?_
      cases hw
      exact h
    | some o => exact .replaced h (classify_eq_some h).1
  · next h => exact .kept fun v hv => absurd hv (h v)

end Resolver

/-! ### Relocations -/

namespace Inst

/-- Only the operands put in last are seen. -/
theorem setOperands_setOperands (i : Inst) (a : List Operand) {b : List Operand}
    (hb : b.length = i.operands.length) : (i.setOperands a).setOperands b = i.setOperands b := by
  rcases b with _ | ⟨x, _ | ⟨y, _ | ⟨z, _ | ⟨w, l⟩⟩⟩⟩ <;>
    fun_cases setOperands i a <;> first | rfl | simp [operands] at hb

end Inst

theorem map_replace {g : Operand → Operand} {old new : Operand} (hg : g old = g new)
    (l : List Operand) : (l.replace old new).map g = l.map g := by
  induction l with
  | nil => rfl
  | cons a l ih =>
    rw [List.replace_cons]
    split <;> simp_all

section Replacing

variable {g : Operand → Operand} {old new : Operand} (hg : g old = g new)

include hg

/-- Replacing an operand does not show in a view of the operands that takes the old
and the new one for the same. -/
theorem Inst.mapOperands_replaceOperand {i j : Inst} (h : i.replaceOperand old new = some j) :
    j.mapOperands g = i.mapOperands g := by
  unfold Inst.replaceOperand at h
  split at h
  · cases h
    have hops : (i.setOperands (i.operands.replace old new)).operands
        = i.operands.replace old new := operands_setOperands i _ List.length_replace
    rw [mapOperands, hops, map_replace hg, setOperands_setOperands i _ (List.length_map g)]
    rfl
  · cases h

theorem map_replaceInSpan {l l' : List Inst} (h : replaceInSpan old new l = some l') :
    l'.map (Inst.mapOperands g) = l.map (Inst.mapOperands g) := by
  induction l generalizing l' with
  | nil => cases h
  | cons i rest ih =>
    rw [replaceInSpan] at h
    split at h
    · cases h
    · split at h
      · next j hj =>
        cases h
        rw [List.map_cons, List.map_cons, Inst.mapOperands_replaceOperand hg hj]
      · obtain ⟨rest', hrest, rfl⟩ := Option.map_eq_some_iff.mp h
        rw [List.map_cons, List.map_cons, ih hrest]

theorem map_replaceAt {pc : Addr} {l l' : List Inst} (h : replaceAt pc old new l = .found l') :
    l'.map (Inst.mapOperands g) = l.map (Inst.mapOperands g) := by
  induction l generalizing l' with
  | nil => cases h
  | cons i rest ih =>
    rw [replaceAt] at h
    split at h
    · split at h
      · next rest' hrest =>
        cases h
        rw [List.map_cons, List.map_cons, map_replaceInSpan hg hrest]
      · cases h
    · cases hrest : replaceAt pc old new rest with
      | found rest' =>
        rw [hrest] at h
        cases h
        rw [List.map_cons, List.map_cons, ih hrest]
      | _ =>
        rw [hrest] at h
        cases h

end Replacing

namespace Resolver

variable {r : Resolver}

theorem replaceInBlock_patchBlock (reloc : Relocation) (pc : Addr) (located : Bool)
    (b : CodeBlock) :
    r.replaceInBlock (r.patchBlock reloc pc located b).value = r.replaceInBlock b := by
  simp only [patchBlock]
  split
  · rfl
  · rfl
  · next insts hfound =>
    split
    · next hsome =>
      obtain ⟨o, ho⟩ := Option.isSome_iff_exists.mp hsome
      rw [ho, Option.getD_some] at hfound
      unfold replaceInBlock
      rw [map_replaceAt (replaceOperand_of_classify ho) hfound]
    · rfl

theorem map_replaceInFunc_patch (stats : ResolveStats) (functions : List Func)
    (reloc : Relocation) :
    (r.patch stats functions reloc).value.map r.replaceInFunc = functions.map r.replaceInFunc := by
  unfold patch
  split
  · rfl
  · rfl
  · next pc _ =>
    refine map_sweep (fun located f => ?_) false functions
    have hblocks := map_sweep (replaceInBlock_patchBlock (r := r) reloc pc) located f.blocks
    simp only [replaceInFunc, Func.sweepBlocks, hblocks]

/-- A patched function is replaced by what the function is replaced by. -/
theorem map_replaceInFunc_patchAll (stats : ResolveStats) (functions : List Func)
    (relocs : List Relocation) :
    (r.patchAll stats functions relocs).value.map r.replaceInFunc
      = functions.map r.replaceInFunc := by
  induction relocs generalizing stats functions with
  | nil => rfl
  | cons reloc rest ih =>
    have hpatch := map_replaceInFunc_patch (r := r) stats functions reloc
    rw [patchAll]
    split
    · exact hpatch
    · rw [ih, hpatch]

end Resolver

/-! ### Calls -/

namespace Resolver

variable {r : Resolver}

theorem importCallee_ne_indirect {wrappers : AddrMap Func} {slot : Addr} {i : Import}
    {o : Operand} : (r.importCallee wrappers slot i).1 ≠ .indirect o := by
  unfold importCallee
  split <;> exact nofun

/-- An indirect call goes to the target of its marker. -/
theorem callee_eq_ok {scan : CallScan} {target : Operand} {isStatic : Bool} {callee : Callee}
    {wrappers : AddrMap Func} (h : r.callee scan target isStatic = .ok (callee, wrappers)) :
    ∀ o, callee = .indirect o → o = target := by
  rintro o rfl
  simp only [Resolver.callee] at h
  split at h
  · -- A static call is never indirect.
    split at h
    · cases h
    · obtain ⟨slot?, -, h⟩ := Checked.bind_eq_ok.mp h
      split at h
      · exact absurd (congrArg Prod.fst (Except.ok.inj h)) importCallee_ne_indirect
      · cases h
  · split at h
    · exact absurd (congrArg Prod.fst (Except.ok.inj h)) importCallee_ne_indirect
    · cases h
      rfl

theorem resolves_operands (operands : List Operand) :
    List.Forall₂ (Operand.Resolves r) operands (operands.map r.replaceOperand) :=
  List.forall₂_map_right_iff.mpr (List.forall₂_same.mpr fun o _ => resolves_replaceOperand o)

/-- What becomes of an instruction whose numbers have been replaced. -/
theorem resolves_resolveInst (scan : CallScan) (i : Inst)
    (h : (r.resolveInst scan (i.mapOperands r.replaceOperand)).stop = none) :
    Inst.Resolves r i (r.resolveInst scan (i.mapOperands r.replaceOperand)).value := by
  cases i with
  | callMarker target isStatic state =>
    have hmap : (Inst.callMarker target isStatic state).mapOperands r.replaceOperand
        = .callMarker (r.replaceOperand target) isStatic (r.replaceOperand state) := rfl
    rw [hmap, resolveInst] at h ⊢
    cases hc : r.callee scan (r.replaceOperand target) isStatic with
    | error e => simp [hc] at h
    | ok called =>
      refine .called (resolves_replaceOperand state) fun o ho => ?_
      rw [callee_eq_ok hc o ho]
      exact resolves_replaceOperand target
  | call callee state => cases callee <;> exact .kept rfl (resolves_operands _)
  | _ => exact .kept rfl (resolves_operands _)

theorem resolves_resolveBlock (a : Addr) (calls : Calls) (b : CodeBlock)
    (h : (r.resolveBlock a calls (r.replaceInBlock b)).stop = none) :
    CodeBlock.Resolves r b (r.resolveBlock a calls (r.replaceInBlock b)).value :=
  ⟨rfl, forall₂_of_sweep resolves_resolveInst h⟩

theorem resolves_resolveFunc (calls : Calls) (f : Func)
    (h : (r.resolveFunc calls (r.replaceInFunc f)).stop = none) :
    Func.Resolves r f (r.resolveFunc calls (r.replaceInFunc f)).value :=
  ⟨rfl, rfl, rfl, forall₂_of_sweep (resolves_resolveBlock f.address) h⟩

/-- The calls of replaced functions are resolved instruction by instruction. -/
theorem forall₂_resolveCalls {functions : List Func}
    (h : (r.resolveCalls (functions.map r.replaceInFunc)).stop = none) :
    List.Forall₂ (Func.Resolves r) functions
      (r.resolveCalls (functions.map r.replaceInFunc)).value :=
  forall₂_of_sweep resolves_resolveFunc h

end Resolver

/-! ### What is left -/

theorem Operand.Resolves.staticAddress?_eq {r : Resolver} {o o' : Operand} (h : o.Resolves r o') :
    o'.staticAddress? = o.staticAddress? := by
  cases h with
  | kept => rfl
  | replaced _ address => exact address

theorem Operand.Resolves.classify_eq_none {r : Resolver} {o : Operand} {v : Word}
    (h : Operand.Resolves r o (.const v)) : r.classify v = none := by
  cases h with
  | kept h => exact h v rfl
  | replaced h _ => exact absurd rfl ((Resolver.classify_eq_some h).2 v)

theorem Inst.isCallMarker_setOperands (i : Inst) (operands : List Operand) :
    (i.setOperands operands).isCallMarker = i.isCallMarker := by
  unfold setOperands
  split <;> rfl

/-- Every operand stands in the place of one that was there. -/
theorem Inst.Resolves.exists_operand {r : Resolver} {i j : Inst} (h : i.Resolves r j)
    {o' : Operand} (ho' : o' ∈ j.operands) : ∃ o ∈ i.operands, Operand.Resolves r o o' := by
  cases h with
  | kept _ each =>
    rw [operands_setOperands i _ each.length_eq.symm] at ho'
    exact exists_mem_of_forall₂ each ho'
  | @called target state state' _ callee hs ht =>
    have hstate : state ∈ [target, state] := List.mem_cons_of_mem _ (List.mem_singleton_self _)
    cases callee with
    | indirect target' =>
      rcases List.mem_pair.mp ho' with rfl | rfl
      · exact ⟨target, List.mem_cons_self, ht _ rfl⟩
      · exact ⟨state, hstate, hs⟩
    | _ => exact ⟨state, hstate, List.mem_singleton.mp ho' ▸ hs⟩

/-- No marker is left, and every operand stands in the place of one. -/
theorem Inst.Resolves.settled {r : Resolver} {i j : Inst} (h : i.Resolves r j) :
    j.isCallMarker = false ∧ ∀ o' ∈ j.operands, ∃ o, Operand.Resolves r o o' := by
  refine ⟨?_, fun o' ho' => (h.exists_operand ho').imp fun _ ho => ho.2⟩
  cases h with
  | kept h _ => rwa [isCallMarker_setOperands]
  | called _ _ => rfl

theorem Func.Resolves.insts {r : Resolver} {f f' : Func} (h : f.Resolves r f') :
    List.Forall₂ (Inst.Resolves r) f.insts f'.insts :=
  List.rel_flatMap h.blocks fun _ _ hb => hb.insts

theorem Func.Resolves.mem_insts {r : Resolver} {f f' : Func} (h : f.Resolves r f') {j : Inst}
    (hj : j ∈ f'.insts) : ∃ i, Inst.Resolves r i j :=
  (exists_mem_of_forall₂ h.insts hj).imp fun _ hi => hi.2

/-- The entries of the functions of a module are what its resolver knows. -/
theorem Resolver.functions_get?_eq_none {m : Module} {image : Image} {store : Store} {a : Addr}
    (h : (Resolver.ofModule image store m).functions.get? a = none) :
    ∀ f ∈ m.functions, f.address ≠ a := by
  rintro f hf rfl
  have hknown : (Resolver.ofModule image store m).functions.contains f.address = true := by
    refine AddrMap.contains_ofList.mpr ?_
    rw [List.map_map]
    exact List.mem_map_of_mem hf
  rw [AddrMap.contains, h] at hknown
  cases hknown

/-- **Resolution rewrites in place.**  A module that is accepted has the functions it had,
block by block and instruction by instruction: numbers that stand for something have
become references to the same addresses, call markers have become calls with the same
state, and nothing else has changed.  No call marker is left, and no number that is the
entry of a function, the slot of an import or an address inside a section. -/
theorem Module.resolve_rewrites {m m' : Module} {image : Image} {store : Store}
    {stats : ResolveStats} (h : m.resolve image store = (m', .ok stats)) :
    List.Forall₂ (Func.Resolves (.ofModule image store m)) m.functions m'.functions ∧
      (∀ o o', Operand.Resolves (.ofModule image store m) o o' →
        o'.staticAddress? = o.staticAddress?) ∧
      ∀ f ∈ m'.functions, ∀ i ∈ f.insts, i.isCallMarker = false ∧
        ∀ v, .const v ∈ i.operands → (Resolver.ofModule image store m).classify v = none ∧
          (∀ g ∈ m.functions, g.address ≠ v) ∧ image.imports.get? v = none ∧
          ∀ s ∈ image.sections, s.contains v = false := by
  have hall : List.Forall₂ (Func.Resolves (.ofModule image store m)) m.functions m'.functions := by
    simp only [Module.resolve] at h
    split at h
    · simp at h
    · rw [Resolver.map_replaceInFunc_patchAll] at h
      split at h
      · simp at h
      · next hstop =>
        rw [← (Prod.mk.inj h).1]
        exact Resolver.forall₂_resolveCalls hstop
  refine ⟨hall, fun o o' ho => ho.staticAddress?_eq, fun f hf j hj => ?_⟩
  obtain ⟨f₀, -, hf₀⟩ := exists_mem_of_forall₂ hall hf
  obtain ⟨i, hi⟩ := hf₀.mem_insts hj
  refine ⟨hi.settled.1, fun v hv => ?_⟩
  obtain ⟨o, ho⟩ := hi.settled.2 _ hv
  obtain ⟨hfunctions, himports, hsections⟩ := Resolver.classify_eq_none.mp ho.classify_eq_none
  exact ⟨ho.classify_eq_none, Resolver.functions_get?_eq_none hfunctions, himports, hsections⟩

/-- An image with an import whose slot is relocated, and data next to the slot. -/
def Image.puts : Image :=
  { arch := .x86_64
    sections := [{ name := ".got", address := 0x2000, size := 16, executable := false
                   writable := true, data := none }]
    imports := .ofList [(0x2000, { name := "puts", library := none })]
    relocations := [{ site := 18, target := 0x2000, size := 8, addend := 0 }] }

/-- A store with the instruction that reads the slot. -/
def Store.puts : Store :=
  ({} : Store).put
    { address := 16, size := 8, kind := .jump, successors := ∅
      body := { insts := [.marker 16, .load 0 (.const 0x2000) 8], nextTemp := 1 } }

/-- A function that calls the import through its slot, and then itself. -/
def Module.puts : Module :=
  { name := "puts"
    functions := [{ name := "main", address := 16, nextTemp := 1
                    blocks := [{ label := "bb_10"
                                 insts := [.marker 16, .load 0 (.const 0x2000) 8,
                                   .writeReg "rdi" (.const 0x2008), .writeReg "rax" (.const 5),
                                   .callMarker (.temp 0) false .env,
                                   .callMarker (.const 16) true .env, .ret] }] }] }

/-- The relocated slot, the data behind it and both calls are resolved; the number 5 stays. -/
theorem Module.resolve_rewrites_puts :
    ∃ m' stats, Module.puts.resolve .puts .puts = (m', .ok stats) ∧
      m'.functions.flatMap Func.insts =
        [.marker 16, .load 0 (.importRef "puts" 0x2000) 8,
          .writeReg "rdi" (.dataRef "got_global_2000" 8 0x2008), .writeReg "rax" (.const 5),
          .call (.imported "import_puts" "puts" 0x2000) .env, .call (.function "main" 16) .env,
          .ret] ∧
      List.Forall₂ (Func.Resolves (.ofModule .puts .puts .puts)) Module.puts.functions
        m'.functions ∧
      ∀ f ∈ m'.functions, ∀ i ∈ f.insts, i.isCallMarker = false := by
  have hok : (Module.puts.resolve .puts .puts).2 =
      .ok { relocations := 1, replacedConstants := 2, memoryAccesses := 1, hardcodedAccesses := 1
            directCalls := 1, importCalls := 1, wrappers := 1 } := by decide +kernel
  obtain ⟨hall, -, hleft⟩ := Module.resolve_rewrites (Prod.ext rfl hok)
  exact ⟨_, _, Prod.ext rfl hok, by decide +kernel, hall, fun f hf i hi => (hleft f hf i hi).1⟩

end FlowRecovery
