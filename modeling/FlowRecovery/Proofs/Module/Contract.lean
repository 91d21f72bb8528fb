/-
When a module is accepted, position by position.

`Module.verify` is the last gate of a recovery.  It goes through functions and wrappers twice, once
for each of them and its name, and once for what their code refers to, and stops at the first
fault.  What it decides can be said without passes, and without the views of instructions that the
passes use: what an instruction calls and goes to are relations here, as is what it defines and
reads, with one rule for each place in an instruction.

* `Inst.mem_targets`, `Inst.isTerminator_iff` — the views compute these relations;
* `Func.wellFormed_iff_contract` — a well-formed function, position by position;
* `Module.checkFunctions_eq_ok`, `Module.checkReferences_eq_ok` — what the two passes ask;
* `Module.verify_iff_contract` — the check accepts exactly the modules that keep the contract.
-/
import FlowRecovery.Proofs.Body.Positions
import FlowRecovery.Proofs.Module.Functions

namespace FlowRecovery

/-! ### What instructions refer to -/

namespace Inst

/-- The instruction calls the function or the wrapper of the name. -/
inductive Calls : Inst → String → Prop
  | function (name : String) (address : Addr) (state : Operand) :
      Calls (.call (.function name address) state) name
  | wrapper (wrapper name : String) (slot : Addr) (state : Operand) :
      Calls (.call (.imported wrapper name slot) state) wrapper

/-- The instruction may go to the label. -/
inductive GoesTo : Inst → String → Prop
  | jump (label : String) : GoesTo (.jump label) label
  | thenLabel (cond : Operand) (label elseLabel : String) :
      GoesTo (.condJump cond label elseLabel) label
  | elseLabel (cond : Operand) (thenLabel label : String) :
      GoesTo (.condJump cond thenLabel label) label

/-- The instruction ends a block. -/
inductive Terminator : Inst → Prop
  | jump (label : String) : Terminator (.jump label)
  | condJump (cond : Operand) (thenLabel elseLabel : String) :
      Terminator (.condJump cond thenLabel elseLabel)
  | ret : Terminator .ret

variable {i : Inst}

theorem calls_function {called name : String} {address : Addr} {state : Operand} :
    (call (.function name address) state).Calls called ↔ called = name := by
  constructor
  · intro h
    cases h
    rfl
  · rintro rfl
    constructor

theorem calls_imported {called wrapper name : String} {slot : Addr} {state : Operand} :
    (call (.imported wrapper name slot) state).Calls called ↔ called = wrapper := by
  constructor
  · intro h
    cases h
    rfl
  · rintro rfl
    constructor

theorem mem_targets {label : String} : label ∈ i.targets ↔ i.GoesTo label := by
  constructor
  · intro h
    cases i with
    | jump target =>
      obtain rfl := List.mem_singleton.mp h
      constructor
    | condJump cond thenLabel elseLabel =>
      rcases List.mem_pair.mp h with rfl | rfl <;> constructor
    | _ => cases h
  · intro h
    cases h <;> simp [targets]

theorem isTerminator_iff : i.isTerminator = true ↔ i.Terminator := by
  constructor
  · intro h
    cases i with
    | jump | condJump | ret => constructor
    | _ => cases h
  · intro h
    cases h <;> rfl

theorem isRaw_eq_false : i.isRaw = false ↔ (∀ target, i ≠ .branch target) ∧ i ≠ .exit := by
  cases i <;> simp [isRaw, branch?]

end Inst

/-! ### Functions -/

/-- Code ends with its only terminator exactly if its last position has a terminator and no
other has one. -/
theorem endsOnce_iff_getElem? {insts : List Inst} : EndsOnce insts ↔ insts ≠ [] ∧
    ∀ (n : Nat) i, insts[n]? = some i → (i.isTerminator = true ↔ n + 1 = insts.length) := by
  constructor
  · rintro ⟨code, last, rfl, hlast, hcode⟩
    refine ⟨List.append_ne_nil_of_right_ne_nil _ (List.cons_ne_nil _ _), ?_⟩
    intro n i hn
    rw [List.length_append, List.length_singleton, Nat.add_right_cancel_iff]
    rcases Nat.lt_or_ge n code.length with hlt | hge
    · rw [List.getElem?_append_left hlt] at hn
      rw [hcode i (List.mem_of_getElem? hn)]
      exact iff_of_false Bool.false_ne_true (Nat.ne_of_lt hlt)
    · rw [List.getElem?_append_right hge] at hn
      -- Behind the code there is one position only.
      obtain ⟨hpos, rfl⟩ := List.getElem?_eq_some_iff.mp hn
      rw [List.length_singleton] at hpos
      rw [List.getElem_singleton, hlast]
      exact iff_of_true rfl (by omega)
  · rintro ⟨hne, h⟩
    refine ⟨insts.dropLast, insts.getLast hne, (List.dropLast_append_getLast hne).symm, ?_, ?_⟩
    · have hpos := List.length_pos_of_ne_nil hne
      refine (h (insts.length - 1) _ ?_).mpr (by omega)
      rw [← List.getLast?_eq_getElem?, List.getLast?_eq_some_getLast hne]
    · intro i hi
      obtain ⟨n, hn⟩ := List.mem_iff_getElem?.mp hi
      obtain ⟨hlt, -⟩ := List.getElem?_eq_some_iff.mp hn
      rw [List.getElem?_dropLast] at hn
      rw [List.length_dropLast] at hlt
      rw [if_pos hlt] at hn
      rw [Bool.eq_false_iff, Ne, h n i hn]
      omega

namespace Func

/-- The contract of assembled functions, position by position. -/
structure Contract (f : Func) : Prop where
  blocks_ne : f.blocks ≠ []
  /-- No two blocks have the same label. -/
  labels : ∀ (m n : Nat) b c, f.blocks[m]? = some b → f.blocks[n]? = some c →
    b.label = c.label → m = n
  insts_ne : ∀ b ∈ f.blocks, b.insts ≠ []
  /-- The last instruction of a block, and no other, is a terminator. -/
  terminator : ∀ b ∈ f.blocks, ∀ (n : Nat) i, b.insts[n]? = some i →
    (i.Terminator ↔ n + 1 = b.insts.length)
  branch : ∀ b ∈ f.blocks, ∀ target, .branch target ∉ b.insts
  exit : ∀ b ∈ f.blocks, .exit ∉ b.insts
  /-- Jumps go to blocks of the function. -/
  jumps : ∀ b ∈ f.blocks, ∀ i ∈ b.insts, ∀ label, i.GoesTo label →
    ∃ c ∈ f.blocks, c.label = label
  /-- No temporary is defined at two positions, in whichever blocks they are. -/
  once : ∀ (m n : Nat) i j t, f.insts[m]? = some i → f.insts[n]? = some j →
    i.Defines t → j.Defines t → m = n
  range : ∀ i ∈ f.insts, ∀ t, i.Defines t → t < f.nextTemp
  /-- What is read somewhere is defined somewhere. -/
  reads : ∀ i ∈ f.insts, ∀ t, i.Reads (.temp t) → ∃ j ∈ f.insts, j.Defines t

variable {f : Func}

theorem mem_labels {label : String} : label ∈ f.labels ↔ ∃ c ∈ f.blocks, c.label = label :=
  List.mem_map

/-- The contract is what the check of a function asks. -/
theorem wellFormed_iff_contract : f.WellFormed ↔ f.Contract := by
  constructor
  · intro h
    refine ⟨h.blocks_ne, nodup_map_iff.mp h.labels, ?_, ?_, ?_, ?_, ?_,
      nodup_definitions_iff.mp h.nodup, ?_, ?_⟩
    · intro b hb
      exact (endsOnce_iff_getElem?.mp (h.closed b hb).ending).1
    · intro b hb n i hn
      rw [← Inst.isTerminator_iff]
      exact (endsOnce_iff_getElem?.mp (h.closed b hb).ending).2 n i hn
    · intro b hb target hmem
      exact (Inst.isRaw_eq_false.mp ((h.closed b hb).noRaw _ hmem)).1 target rfl
    · intro b hb hmem
      exact (Inst.isRaw_eq_false.mp ((h.closed b hb).noRaw _ hmem)).2 rfl
    · intro b hb i hi label hlabel
      exact mem_labels.mp ((h.closed b hb).targets i hi label (Inst.mem_targets.mpr hlabel))
    · intro i hi t ht
      exact h.range t (mem_definitions_iff.mpr ⟨i, hi, ht⟩)
    · intro i hi t ht
      exact mem_definitions_iff.mp (h.reads i hi t (Inst.mem_uses.mpr ht))
  · intro h
    refine ⟨h.blocks_ne, nodup_map_iff.mpr h.labels, ?_, nodup_definitions_iff.mpr h.once, ?_, ?_⟩
    · intro b hb
      refine ⟨endsOnce_iff_getElem?.mpr ⟨h.insts_ne b hb, ?_⟩, ?_, ?_⟩
      · intro n i hn
        rw [Inst.isTerminator_iff]
        exact h.terminator b hb n i hn
      · intro i hi
        refine Inst.isRaw_eq_false.mpr ⟨?_, ?_⟩
        · rintro target rfl
          exact h.branch b hb target hi
        · rintro rfl
          exact h.exit b hb hi
      · intro i hi label hlabel
        exact mem_labels.mpr (h.jumps b hb i hi label (Inst.mem_targets.mp hlabel))
    · intro i hi t ht
      exact mem_definitions_iff.mpr (h.reads i hi t (Inst.mem_uses.mp ht))
    · intro t ht
      obtain ⟨i, hi, hit⟩ := mem_definitions_iff.mp ht
      exact h.range i hi t hit

end Func

/-! ### Modules -/

namespace Module

variable {m : Module}

/-- The first pass asks that all functions are well formed, and that no name comes again. -/
theorem checkFunctions_eq_ok {names : List String} {l : List Func} :
    checkFunctions names l = .ok () ↔ (∀ f ∈ l, f.WellFormed) ∧ (l.map (·.name)).Nodup ∧
      ∀ name ∈ l.map (·.name), name ∉ names := by
  -- The names at hand are those from the outside and those of the functions before.
  induction l generalizing names with
  | nil => exact ⟨fun _ => ⟨nofun, .nil, nofun⟩, fun _ => rfl⟩
  | cons f l ih =>
    rw [checkFunctions, seq_eq_ok, Func.verify_eq_ok, List.forall_mem_cons, List.map_cons,
      List.nodup_cons, List.forall_mem_cons]
    by_cases hmem : f.name ∈ names
    · rw [if_pos hmem]
      exact ⟨fun h => (nomatch h.2), fun h => absurd hmem h.2.2.1⟩
    · rw [if_neg hmem]
      show f.WellFormed ∧ checkFunctions (f.name :: names) l = _ ↔ _
      rw [ih]
      constructor
      · rintro ⟨hf, hl, hnodup, hnew⟩
        refine ⟨⟨hf, hl⟩, ⟨fun h => hnew _ h List.mem_cons_self, hnodup⟩, hmem, ?_⟩
        intro name hname h
        exact hnew name hname (List.mem_cons_of_mem _ h)
      · rintro ⟨⟨hf, hl⟩, ⟨hnot, hnodup⟩, -, hnew⟩
        refine ⟨hf, hl, hnodup, ?_⟩
        intro name hname h
        rcases List.mem_cons.mp h with rfl | h
        · exact hnot hname
        · exact hnew name hname h

theorem isSome_function? {name : String} :
    (m.function? name).isSome = true ↔ ∃ g ∈ m.allFunctions, g.name = name := by
  simp only [function?, List.find?_isSome, beq_iff_eq]

/-- A call has to be resolved, and what it names has to be there. -/
theorem checkCall_eq_ok {i : Inst} : m.checkCall i = .ok () ↔
    (∀ target isStatic state, i ≠ .callMarker target isStatic state) ∧
      ∀ name, i.Calls name → ∃ g ∈ m.allFunctions, g.name = name := by
  -- The cases are those of the check: instructions that are no call are never told apart.
  unfold checkCall
  split
  · next target isStatic state => exact ⟨nofun, fun h => absurd rfl (h.1 target isStatic state)⟩
  · next name address state =>
    rw [ensure_eq_ok, isSome_function?]
    simp [Inst.calls_function]
  · next wrapper name slot state =>
    rw [ensure_eq_ok, isSome_function?]
    simp [Inst.calls_imported]
  · next hmarker hfunction himported =>
    refine iff_of_true rfl ⟨hmarker, ?_⟩
    intro name hname
    cases hname with
    | function => exact (hfunction _ _ _ rfl).elim
    | wrapper => exact (himported _ _ _ _ rfl).elim

/-- The global of a name is the first one that has it. -/
theorem global?_eq_some {name : String} {g : GlobalData} : m.global? name = some g ↔
    ∃ before after, m.globals = before ++ g :: after ∧ g.name = name ∧
      ∀ h ∈ before, h.name ≠ name := by
  simp only [global?, List.find?_eq_some_iff_append, beq_iff_eq, Bool.not_eq_true',
    beq_eq_false_iff_ne]
  constructor
  · rintro ⟨hname, before, after, hglobals, hbefore⟩
    exact ⟨before, after, hglobals, hname, hbefore⟩
  · rintro ⟨before, after, hglobals, hname, hbefore⟩
    exact ⟨hname, before, after, hglobals, hbefore⟩

/-- A place in the data of a section has to be inside the global of its name. -/
theorem checkOperand_eq_ok {o : Operand} : m.checkOperand o = .ok () ↔
    ∀ global offset address, o = .dataRef global offset address →
      ∃ g, m.global? global = some g ∧ offset < max g.size 1 := by
  cases o with
  | dataRef global offset address =>
    rw [checkOperand]
    cases hg : m.global? global <;> simp [hg]
  | _ => exact iff_of_true rfl nofun

/-- The second pass asks of an instruction that what it refers to is there. -/
theorem checkReferences_eq_ok {i : Inst} : m.checkReferences i = .ok () ↔
    ((∀ target isStatic state, i ≠ .callMarker target isStatic state) ∧
      ∀ name, i.Calls name → ∃ g ∈ m.allFunctions, g.name = name) ∧
    ∀ global offset address, i.Reads (.dataRef global offset address) →
      ∃ g, m.global? global = some g ∧ offset < max g.size 1 := by
  rw [checkReferences, seq_eq_ok, checkCall_eq_ok, forM_eq_ok]
  simp only [checkOperand_eq_ok, Inst.mem_operands]
  refine and_congr_right fun _ => ?_
  constructor
  · intro h global offset address hread
    exact h _ hread global offset address rfl
  · rintro h o hread global offset address rfl
    exact h global offset address hread

theorem verify_eq_ok : m.verify = .ok () ↔ checkFunctions [] m.allFunctions = .ok () ∧
    ∀ f ∈ m.allFunctions, ∀ i ∈ f.insts, m.checkReferences i = .ok () := by
  rw [verify, seq_eq_ok]
  simp only [forM_eq_ok, Checked.mapError_eq_ok]

/-- The contract of modules, position by position. -/
structure Contract (m : Module) : Prop where
  functions : ∀ f ∈ m.allFunctions, f.Contract
  /-- No two functions or wrappers have the same name. -/
  names : ∀ (k n : Nat) f g, m.allFunctions[k]? = some f → m.allFunctions[n]? = some g →
    f.name = g.name → k = n
  callMarker : ∀ f ∈ m.allFunctions, ∀ target isStatic state,
    .callMarker target isStatic state ∉ f.insts
  /-- What is called is the name of a function or wrapper. -/
  calls : ∀ f ∈ m.allFunctions, ∀ i ∈ f.insts, ∀ name, i.Calls name →
    ∃ g ∈ m.allFunctions, g.name = name
  /-- A place in data is inside the first global of its name; where that is empty, its start is. -/
  data : ∀ f ∈ m.allFunctions, ∀ i ∈ f.insts, ∀ global offset address,
    i.Reads (.dataRef global offset address) →
      ∃ before g after, m.globals = before ++ g :: after ∧ g.name = global ∧
        (∀ h ∈ before, h.name ≠ global) ∧ offset < max g.size 1

/-- **The check of a module decides its contract.**  It accepts a module exactly if all functions
and wrappers keep the contract of functions, no two of them have one name, no call is left to be
resolved, and everything that is called or pointed at is there. -/
theorem verify_iff_contract (m : Module) : m.verify = .ok () ↔ m.Contract := by
  simp only [verify_eq_ok, checkFunctions_eq_ok, checkReferences_eq_ok, nodup_map_iff,
    Func.wellFormed_iff_contract]
  constructor
  · rintro ⟨⟨hfunctions, hnames, -⟩, hrefs⟩
    refine ⟨hfunctions, hnames, ?_, ?_, ?_⟩
    · intro f hf target isStatic state hmem
      exact (hrefs f hf _ hmem).1.1 target isStatic state rfl
    · intro f hf i hi
      exact (hrefs f hf i hi).1.2
    · intro f hf i hi global offset address hread
      obtain ⟨g, hg, hoffset⟩ := (hrefs f hf i hi).2 global offset address hread
      obtain ⟨before, after, hglobals, hname, hbefore⟩ := global?_eq_some.mp hg
      exact ⟨before, g, after, hglobals, hname, hbefore, hoffset⟩
  · intro h
    -- No name is known before the first function.
    refine ⟨⟨h.functions, h.names, fun _ _ => List.not_mem_nil⟩, ?_⟩
    intro f hf i hi
    refine ⟨⟨?_, h.calls f hf i hi⟩, ?_⟩
    · rintro target isStatic state rfl
      exact h.callMarker f hf target isStatic state hi
    · intro global offset address hread
      obtain ⟨before, g, after, hglobals, hname, hbefore, hoffset⟩ :=
        h.data f hf i hi global offset address hread
      exact ⟨g, global?_eq_some.mpr ⟨before, after, hglobals, hname, hbefore⟩, hoffset⟩

-- The place stands inside a callee.  Its global is empty, and the next of that name does not count.
example :
    let calling (offset : Word) : Module :=
      { name := "m"
        globals := [{ name := "g", sect := ".bss", address := 0x10, size := 0, init := none },
                    { name := "g", sect := ".data", address := 0x10, size := 8, init := none }]
        functions :=
          [{ name := "f", address := 0x40, nextTemp := 0
             blocks := [{ label := "bb_40"
                          insts := [.call (.indirect (.dataRef "g" offset 0x10)) .env, .ret] }] }] }
    (calling 0).verify = .ok () ∧
      (calling 1).verify = .error (.module (.reference (.offsetPast 1 "g") "f")) := by
  decide +kernel

end Module

end FlowRecovery
