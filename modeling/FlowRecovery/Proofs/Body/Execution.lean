/-
Straight-line execution, and what a cut does to it.

Code is executed over arbitrary values and an arbitrary memory: a `Semantics` says
what the operations compute and what helpers do, `Semantics.run` executes one
instruction after the other.  The code behind a cut defines once more, after all of
the code before the cut, what it still reads of it.  So the halves of a body do what
the body does with the carried definitions executed a second time at the cut:

* `Agree.run` — code that reads only what is defined before does the same whatever
  temporaries hold at its start;
* `step_of_repeatable` — a definition can be executed once more if nothing that it
  reads was overwritten since;
* `Body.run_halves` — what the two parts of a cut do, and when this is what the whole
  body does;
* `Body.overwritten_differs` — a register that is read, overwritten and then needed
  behind the cut comes out differently.
-/
import FlowRecovery.Proofs.Body.Cut

namespace FlowRecovery

/-- What code works on besides temporaries. -/
structure World (V M : Type) where
  regs : String → V
  memory : M
  pc : Addr

/-- What operations mean over values `V` and memories `M`.  A helper is a function of its
name, its arguments and the world, and may change the world. -/
structure Semantics (V M : Type) where
  /-- The value of an operand that is not a temporary. -/
  literal : Operand → V
  binary : BinOp → V → V → V
  select : V → V → V → V
  load : M → V → UInt8 → V
  store : M → V → V → UInt8 → M
  helper : String → List V → World V M → V × World V M

/-- A state of an execution. -/
structure Execution (V M : Type) where
  world : World V M
  temps : Temp → V
  /-- Where the raw branch leads, once it was reached. -/
  next : Option V
  /-- Nothing more happens once execution has stopped. -/
  halted : Bool

variable {V M : Type}

namespace Execution

/-- The state in which code starts: nothing has been branched to, and execution goes on. -/
def init (world : World V M) (temps : Temp → V) : Execution V M := ⟨world, temps, none, false⟩

/-- Go on with other code: the world stays, temporaries are fresh. -/
def resume (σ : Execution V M) (temps : Temp → V) : Execution V M :=
  { σ with temps := temps, next := none }

/-- Give a temporary a value. -/
def define (σ : Execution V M) (t : Temp) (v : V) : Execution V M :=
  { σ with temps := Function.update σ.temps t v }

/-- Go on in another world. -/
def moveTo (σ : Execution V M) (world : World V M) : Execution V M := { σ with world := world }

/-- What an execution leaves behind: registers, memory and program counter, the target of the
raw branch, and whether it has stopped. -/
def outcome (σ : Execution V M) : World V M × Option V × Bool := (σ.world, σ.next, σ.halted)

theorem define_eq_self {σ : Execution V M} {t : Temp} {v : V} (h : σ.temps t = v) :
    σ.define t v = σ := by
  rw [define, ← h, Function.update_eq_self]

end Execution

namespace Semantics

variable (m : Semantics V M)

/-- The value of an operand. -/
def value (σ : Execution V M) : Operand → V
  | .temp t => σ.temps t
  | o => m.literal o

/-- The effect of an instruction while execution goes on.  Markers and the raw end have none. -/
def act (σ : Execution V M) : Inst → Execution V M
  | .setPc pc => σ.moveTo { σ.world with pc := pc }
  | .readReg dst reg => σ.define dst (σ.world.regs reg)
  | .writeReg reg v =>
    σ.moveTo { σ.world with regs := Function.update σ.world.regs reg (m.value σ v) }
  | .binary dst op lhs rhs => σ.define dst (m.binary op (m.value σ lhs) (m.value σ rhs))
  | .select dst cond ifTrue ifFalse =>
    σ.define dst (m.select (m.value σ cond) (m.value σ ifTrue) (m.value σ ifFalse))
  | .load dst addr size => σ.define dst (m.load σ.world.memory (m.value σ addr) size)
  | .store addr v size =>
    σ.moveTo { σ.world with
      memory := m.store σ.world.memory (m.value σ addr) (m.value σ v) size }
  | .helper none name args => σ.moveTo (m.helper name (args.map (m.value σ)) σ.world).2
  | .helper (some t) name args =>
    (σ.moveTo (m.helper name (args.map (m.value σ)) σ.world).2).define t
      (m.helper name (args.map (m.value σ)) σ.world).1
  | .halt => { σ with halted := true }
  | .branch target => { σ with next := some (m.value σ target) }
  | .marker _ | .exit | .callMarker _ _ _ | .returnMarker _ | .jumpMarker _ | .call _ _
  | .importCall _ _ _ | .jump _ | .condJump _ _ _ | .ret => σ

/-- Execute an instruction; once execution has stopped, no instruction has an effect. -/
def step (σ : Execution V M) (i : Inst) : Execution V M := if σ.halted then σ else m.act σ i

/-- Execute code from a state on. -/
def run (insts : List Inst) (σ : Execution V M) : Execution V M := insts.foldl m.step σ

/-- Execute one body and then, with fresh temporaries, another one. -/
def runParts (first second : Body) (w : World V M) (τ₁ τ₂ : Temp → V) : Execution V M :=
  m.run second.insts ((m.run first.insts (.init w τ₁)).resume τ₂)

@[simp] theorem run_cons (i : Inst) (l : List Inst) (σ : Execution V M) :
    m.run (i :: l) σ = m.run l (m.step σ i) := rfl

@[simp] theorem run_append (l l' : List Inst) (σ : Execution V M) :
    m.run (l ++ l') σ = m.run l' (m.run l σ) := List.foldl_append

@[simp] theorem step_marker (σ : Execution V M) (pc : Addr) : m.step σ (.marker pc) = σ := by
  unfold step
  split <;> rfl

theorem step_of_halted {σ : Execution V M} (h : σ.halted = true) (i : Inst) : m.step σ i = σ :=
  if_pos h

theorem step_of_not_halted {σ : Execution V M} (h : σ.halted = false) (i : Inst) :
    m.step σ i = m.act σ i :=
  if_neg (by simp [h])

/-- What no instruction of the code changes is the same after it. -/
theorem run_keeps {α : Type} {f : Execution V M → α} {insts : List Inst}
    (h : ∀ i ∈ insts, ∀ σ, f (m.act σ i) = f σ) (σ : Execution V M) : f (m.run insts σ) = f σ := by
  induction insts generalizing σ with
  | nil => rfl
  | cons i insts ih =>
    obtain ⟨hi, hrest⟩ := List.forall_mem_cons.mp h
    rw [run_cons, ih hrest]
    unfold step
    split
    · rfl
    · exact hi σ

theorem run_of_halted {σ : Execution V M} (h : σ.halted = true) (insts : List Inst) :
    m.run insts σ = σ := by
  induction insts with
  | nil => rfl
  | cons i insts ih => rw [run_cons, m.step_of_halted h, ih]

/-! ### Code depends only on what it reads -/

/-- Two executions that differ only in temporaries that are not known. -/
structure Agree (known : List Temp) (σ τ : Execution V M) : Prop where
  outcome : σ.outcome = τ.outcome
  temps : ∀ t ∈ known, σ.temps t = τ.temps t

variable {m}

theorem value_congr {σ τ : Execution V M} {o : Operand}
    (h : ∀ t ∈ o.temp?.toList, σ.temps t = τ.temps t) : m.value σ o = m.value τ o := by
  cases o with
  | temp t => exact h t List.mem_cons_self
  | _ => rfl

/-- States that agree on what an instruction reads give its operands the same values. -/
theorem value_of_uses {σ τ : Execution V M} {i : Inst}
    (h : ∀ t ∈ i.uses, σ.temps t = τ.temps t) : ∀ o ∈ i.operands, m.value σ o = m.value τ o := by
  intro o ho
  refine value_congr fun t ht => h t (List.mem_filterMap.mpr ⟨o, ho, ?_⟩)
  exact Option.mem_toList.mp ht

namespace Agree

variable {known : List Temp} {σ τ : Execution V M}

theorem define (h : Agree known σ τ) (t : Temp) (v : V) :
    Agree ([t] ++ known) (σ.define t v) (τ.define t v) := by
  refine ⟨h.outcome, fun u hu => ?_⟩
  show Function.update σ.temps t v u = Function.update τ.temps t v u
  by_cases hut : u = t
  · rw [hut, Function.update_self, Function.update_self]
  · rw [Function.update_of_ne hut, Function.update_of_ne hut]
    exact h.temps u ((List.mem_cons.mp hu).resolve_left hut)

theorem moveTo (h : Agree known σ τ) (world : World V M) :
    Agree known (σ.moveTo world) (τ.moveTo world) := by
  obtain ⟨-, hrest⟩ := Prod.mk.injEq .. ▸ h.outcome
  exact ⟨congrArg (Prod.mk world) hrest, h.temps⟩

/-- The same instruction does the same to states that agree on what it reads. -/
theorem act (h : Agree known σ τ) {i : Inst} (huses : ∀ t ∈ i.uses, t ∈ known) :
    Agree (i.def?.toList ++ known) (m.act σ i) (m.act τ i) := by
  have hval := value_of_uses (m := m) fun t ht => h.temps t (huses t ht)
  have hworld : σ.world = τ.world := congrArg Prod.fst h.outcome
  cases i with
  | readReg dst reg =>
    rw [Semantics.act, Semantics.act, hworld]
    exact h.define dst _
  | binary dst op lhs rhs =>
    rw [Semantics.act, Semantics.act, hval lhs (by simp [Inst.operands]),
      hval rhs (by simp [Inst.operands])]
    exact h.define dst _
  | select dst cond ifTrue ifFalse =>
    rw [Semantics.act, Semantics.act, hval cond (by simp [Inst.operands]),
      hval ifTrue (by simp [Inst.operands]), hval ifFalse (by simp [Inst.operands])]
    exact h.define dst _
  | load dst addr size =>
    rw [Semantics.act, Semantics.act, hworld, hval addr (by simp [Inst.operands])]
    exact h.define dst _
  | setPc pc =>
    rw [Semantics.act, Semantics.act, hworld]
    exact h.moveTo _
  | writeReg reg v =>
    rw [Semantics.act, Semantics.act, hworld, hval v (by simp [Inst.operands])]
    exact h.moveTo _
  | store addr v size =>
    rw [Semantics.act, Semantics.act, hworld, hval addr (by simp [Inst.operands]),
      hval v (by simp [Inst.operands])]
    exact h.moveTo _
  | helper dst name args =>
    have hargs : args.map (m.value σ) = args.map (m.value τ) := List.map_congr_left hval
    cases dst with
    | none =>
      rw [Semantics.act, Semantics.act, hworld, hargs]
      exact h.moveTo _
    | some t =>
      rw [Semantics.act, Semantics.act, hworld, hargs]
      exact (h.moveTo _).define t _
  | halt =>
    have hnext : σ.next = τ.next := congrArg (·.2.1) h.outcome
    refine ⟨?_, h.temps⟩
    simp [Execution.outcome, Semantics.act, hworld, hnext]
  | branch target =>
    have hhalted : σ.halted = τ.halted := congrArg (·.2.2) h.outcome
    refine ⟨?_, h.temps⟩
    simp [Execution.outcome, Semantics.act, hworld, hhalted, hval target (by simp [Inst.operands])]
  | _ => exact h

theorem step (h : Agree known σ τ) {i : Inst} (huses : ∀ t ∈ i.uses, t ∈ known)
    (hσ : σ.halted = false) : Agree (i.def?.toList ++ known) (m.step σ i) (m.step τ i) := by
  have hτ : τ.halted = false := (congrArg (·.2.2) h.outcome).symm.trans hσ
  rw [m.step_of_not_halted hσ, m.step_of_not_halted hτ]
  exact h.act huses

/-- Code that reads only what is known or defined before ends in the same way, whatever the
other temporaries hold at its start. -/
theorem run {insts : List Inst} (h : Agree known σ τ) (hreads : ReadsDefined known insts) :
    (m.run insts σ).outcome = (m.run insts τ).outcome := by
  induction insts generalizing known σ τ with
  | nil => exact h.outcome
  | cons i insts ih =>
    cases hσ : σ.halted with
    | false => exact ih (h.step hreads.1 hσ) hreads.2
    | true =>
      have hτ : τ.halted = true := (congrArg (·.2.2) h.outcome).symm.trans hσ
      rw [m.run_of_halted hσ, m.run_of_halted hτ]
      exact h.outcome

end Agree

/-! ### Executing a definition once more -/

/-- Whether executing the instruction leaves a register as it is. -/
def keepsReg (reg : String) : Inst → Bool
  | .writeReg r _ => r != reg
  | .helper _ _ _ => false
  | _ => true

/-- Whether executing the instruction leaves memory as it is. -/
def keepsMemory : Inst → Bool
  | .store _ _ _ => false
  | .helper _ _ _ => false
  | _ => true

/-- A definition that computes the same again behind the code that follows it: nothing that it
reads is overwritten there. -/
def repeatable (later : List Inst) : Inst → Bool
  | .readReg _ reg => later.all (keepsReg reg)
  | .load _ _ _ => later.all keepsMemory
  | .binary _ _ _ _ => true
  | .select _ _ _ _ => true
  | _ => false

theorem temps_act {σ : Execution V M} {i : Inst} {t : Temp} (h : i.def? ≠ some t) :
    (m.act σ i).temps t = σ.temps t := by
  have hdefine : ∀ (τ : Execution V M) (dst : Temp) (v : V), some dst ≠ some t →
      (τ.define dst v).temps t = τ.temps t := by
    intro τ dst v hne
    exact Function.update_of_ne (fun ht => hne (congrArg some ht.symm)) v τ.temps
  cases i with
  | helper dst name args =>
    cases dst with
    | none => rfl
    | some dst => exact hdefine _ dst _ h
  | readReg dst reg => exact hdefine σ dst _ h
  | binary dst op lhs rhs => exact hdefine σ dst _ h
  | select dst cond ifTrue ifFalse => exact hdefine σ dst _ h
  | load dst addr size => exact hdefine σ dst _ h
  | _ => rfl

theorem regs_act {σ : Execution V M} {i : Inst} {reg : String} (h : keepsReg reg i = true) :
    (m.act σ i).world.regs reg = σ.world.regs reg := by
  cases i with
  | writeReg r v => exact Function.update_of_ne (fun hr => by simp [keepsReg, hr] at h) _ _
  | helper _ _ _ => cases h
  | _ => rfl

theorem memory_act {σ : Execution V M} {i : Inst} (h : keepsMemory i = true) :
    (m.act σ i).world.memory = σ.world.memory := by
  cases i with
  | store _ _ _ => cases h
  | helper _ _ _ => cases h
  | _ => rfl

theorem temps_run {insts : List Inst} {t : Temp} (h : t ∉ definitions insts)
    (σ : Execution V M) : (m.run insts σ).temps t = σ.temps t :=
  m.run_keeps (f := (·.temps t)) (fun _ hi _ => temps_act fun ht => h (mem_definitions hi ht)) σ

/-- Inner code has no branch. -/
theorem next_run {insts : List Inst} (h : ∀ i ∈ insts, i.isInner = true) (σ : Execution V M) :
    (m.run insts σ).next = σ.next := by
  refine m.run_keeps (f := (·.next)) (fun i hi τ => ?_) σ
  have hinner := h i hi
  cases i with
  | branch target => cases hinner
  | helper dst name args => cases dst <;> rfl
  | _ => rfl

/-- A definition whose code defines each temporary once can be executed once more at the end of
the code, if nothing that it reads was overwritten since. -/
theorem step_of_repeatable {l later : List Inst} {i : Inst}
    (hnodup : (definitions (l ++ i :: later)).Nodup) (hreads : ReadsDefined [] (l ++ i :: later))
    (hi : repeatable later i = true) (σ : Execution V M) :
    m.step (m.run (l ++ i :: later) σ) i = m.run (l ++ i :: later) σ := by
  cases hhalted : (m.run (l ++ i :: later) σ).halted with
  | true => exact m.step_of_halted hhalted i
  | false =>
    rw [m.step_of_not_halted hhalted]
    rw [run_append] at hhalted ⊢
    -- Execution reaches the definition in the state `μ`.
    generalize m.run l σ = μ at hhalted ⊢
    have hμ : μ.halted = false := by
      refine Bool.eq_false_iff.mpr fun h => ?_
      rw [m.run_of_halted h, h] at hhalted
      cases hhalted
    rw [definitions_append, List.nodup_append] at hnodup
    obtain ⟨-, hrest, hapart⟩ := hnodup
    rw [definitions_cons, List.nodup_append] at hrest
    -- What the definition reads is defined before it, and so not again behind it.
    have hval : ∀ o ∈ i.operands,
        m.value (m.run (i :: later) μ) o = m.value μ o := by
      refine value_of_uses fun t ht => temps_run (fun hdef => ?_) μ
      have huse := (ReadsDefined.append.mp hreads).2.1 t ht
      rw [List.append_nil] at huse
      exact hapart t huse t hdef rfl
    have htemp : ∀ t, i.def? = some t →
        (m.run (i :: later) μ).temps t = (m.act μ i).temps t := by
      intro t ht
      rw [run_cons, m.step_of_not_halted hμ]
      exact temps_run (fun hdef => hrest.2.2 t (by simp [ht]) t hdef rfl) _
    have hworld : m.run (i :: later) μ = m.run later (m.act μ i) := by
      rw [run_cons, m.step_of_not_halted hμ]
    cases i with
    | readReg dst reg =>
      have hreg : (m.run later (m.act μ (.readReg dst reg))).world.regs reg = μ.world.regs reg :=
        m.run_keeps (f := (·.world.regs reg)) (fun j hj _ => regs_act (List.all_eq_true.mp hi j hj)) _
      refine Execution.define_eq_self ((htemp dst rfl).trans ?_)
      rw [hworld, hreg]
      exact Function.update_self ..
    | load dst addr size =>
      have hmem : (m.run later (m.act μ (.load dst addr size))).world.memory = μ.world.memory :=
        m.run_keeps (f := (·.world.memory)) (fun j hj _ => memory_act (List.all_eq_true.mp hi j hj)) _
      refine Execution.define_eq_self ((htemp dst rfl).trans ?_)
      rw [hval addr (by simp [Inst.operands]), hworld, hmem]
      exact Function.update_self ..
    | binary dst op lhs rhs =>
      refine Execution.define_eq_self ((htemp dst rfl).trans ?_)
      rw [hval lhs (by simp [Inst.operands]), hval rhs (by simp [Inst.operands])]
      exact Function.update_self ..
    | select dst cond ifTrue ifFalse =>
      refine Execution.define_eq_self ((htemp dst rfl).trans ?_)
      rw [hval cond (by simp [Inst.operands]), hval ifTrue (by simp [Inst.operands]),
        hval ifFalse (by simp [Inst.operands])]
      exact Function.update_self ..
    | _ => cases hi

/-- Whether each of the carried definitions can be executed again at the end of the code. -/
def repeatableIn (carried : List Inst) : List Inst → Bool
  | [] => true
  | i :: later => (!carried.contains i || repeatable later i) && repeatableIn carried later

theorem repeatable_of_mem {carried l later : List Inst} {i : Inst}
    (h : repeatableIn carried (l ++ i :: later) = true) (hi : i ∈ carried) :
    repeatable later i = true := by
  induction l with
  | nil =>
    have hfirst := (Bool.and_eq_true_iff.mp h).1
    simpa [hi] using hfirst
  | cons j l ih => exact ih (Bool.and_eq_true_iff.mp h).2

/-- Definitions that can be executed again leave the end of the code as it is. -/
theorem run_of_repeatableIn {carried pre : List Inst} (hnodup : (definitions pre).Nodup)
    (hreads : ReadsDefined [] pre) (hcarried : ∀ i ∈ carried, i ∈ pre)
    (h : repeatableIn carried pre = true) (σ : Execution V M) :
    m.run carried (m.run pre σ) = m.run pre σ := by
  have hidle : ∀ i ∈ carried, m.step (m.run pre σ) i = m.run pre σ := by
    intro i hi
    obtain ⟨l, later, rfl⟩ := List.append_of_mem (hcarried i hi)
    exact step_of_repeatable hnodup hreads (repeatable_of_mem h hi) σ
  clear h hcarried
  induction carried with
  | nil => rfl
  | cons i carried ih =>
    obtain ⟨hi, hidle⟩ := List.forall_mem_cons.mp hidle
    rw [run_cons, hi]
    exact ih hidle

end Semantics

namespace Body

open Semantics Execution

variable {b : Body} {address pc : Addr} {size : Word} {pre post : List Inst}

/-- The code before the marker at `pc`. -/
def codeBefore (b : Body) (pc : Addr) : List Inst := b.insts.takeWhile (· ≠ .marker pc)

/-- The code behind the marker at `pc`. -/
def codeBehind (b : Body) (pc : Addr) : List Inst := (b.insts.dropWhile (· ≠ .marker pc)).drop 1

/-- The definitions that the code from `pc` on takes along. -/
def carried (b : Body) (pc : Addr) : List Inst :=
  carry (openTemps (.marker pc :: b.codeBehind pc)) [] (b.codeBefore pc).reverse

theorem Lawful.code_eq (h : b.Lawful address size)
    (hcut : b.insts = pre ++ .marker pc :: post) : b.codeBefore pc = pre ∧ b.codeBehind pc = post := by
  -- Markers increase, so the one at the cut is not among those before it.
  have hnot : ∀ i ∈ pre, decide (i ≠ .marker pc) = true := by
    intro i hi
    refine decide_eq_true fun heq => ?_
    have hmem : pc ∈ markers pre := List.mem_filterMap.mpr ⟨i, hi, by rw [heq]; rfl⟩
    exact UInt64.lt_irrefl pc ((h.markers_cut hcut).2.1 pc hmem)
  rw [codeBefore, codeBehind, hcut, List.takeWhile_append_of_pos hnot, List.dropWhile_append_of_pos hnot]
  simp

theorem resume_run_rawEnd (m : Semantics V M) (target : Option Operand) (σ : Execution V M)
    (temps : Temp → V) : (m.run (rawEnd target) σ).resume temps = σ.resume temps := by
  cases hσ : σ.halted with
  | true => rw [m.run_of_halted hσ]
  | false => cases target <;> simp [rawEnd, Semantics.run, Semantics.step, Semantics.act, hσ, resume]

/-- What the parts of a cut do one after the other: the code before the cut, the carried
definitions once more, and the code behind the cut. -/
theorem Lawful.outcome_parts (m : Semantics V M) (h : b.Lawful address size)
    (hcut : b.insts = pre ++ .marker pc :: post) (w : World V M) (τ τ₁ τ₂ : Temp → V) :
    (m.run (.marker pc :: (b.carried pc ++ post))
      ((m.run (pre ++ rawEnd (some (.pc pc))) (init w τ₁)).resume τ₂)).outcome =
        (m.run post (m.run (b.carried pc) (m.run pre (init w τ)))).outcome := by
  obtain ⟨hpre, hpost⟩ := h.code_eq hcut
  have hin := h.inside pc (by rw [hcut]; simp [markers, Inst.marker?])
  obtain ⟨n, -, hn⟩ := Block.exists_checkedSub (ε := Unit) (UInt64.le_of_lt hin.2)
  have hbehind := (h.behind hcut (saturatingAdd_eq hn)).reads
  have hreads := h.reads
  rw [hcut] at hreads
  -- The code before the cut reads nothing that it does not define.
  have hinit : Agree [] (init w τ₁) (init w τ) := ⟨rfl, List.forall_mem_nil _⟩
  have hsame : (m.run pre (init w τ₁)).outcome = (m.run pre (init w τ)).outcome :=
    hinit.run (ReadsDefined.append.mp hreads).1
  have hnext : (m.run pre (init w τ)).next = none := by
    obtain ⟨code, target, hcode, hinner⟩ := h.ending
    obtain ⟨post', -, rfl⟩ := exists_rawEnd_of_marker (hcut.symm.trans hcode)
    exact next_run (fun i hi => hinner i (List.mem_append_left _ hi)) (init w τ)
  -- Nor does the code behind it, so fresh temporaries make no difference.
  have hagree : Agree [] ((m.run pre (init w τ₁)).resume τ₂) (m.run pre (init w τ)) := by
    simp only [outcome, Prod.mk.injEq] at hsame
    refine ⟨?_, List.forall_mem_nil _⟩
    simp [outcome, resume, hsame.1, hsame.2.2, hnext]
  rw [run_append, resume_run_rawEnd, run_cons, step_marker, ← run_append]
  refine hagree.run ?_
  rw [carried, hpre, hpost]
  exact hbehind.2

/-- A body that is accepted can be cut at each of its boundaries, and the two parts, one after the
other and with fresh temporaries, do what the body does with the carried definitions executed once
more at the cut.  So they end as the body does if those change nothing there, and in particular if
none of them is a helper and nothing that they read is overwritten between them and the cut. -/
theorem run_halves (m : Semantics V M) (hb : b.verify address size = .ok ())
    (hpc : b.boundaries.contains pc = true) :
    ∃ first second, b.cutBefore? pc = some first ∧ b.cutFrom? pc = some second ∧
      b.insts = b.codeBefore pc ++ .marker pc :: b.codeBehind pc ∧
      ∀ (w : World V M) (τ τ₁ τ₂ : Temp → V),
        (m.runParts first second w τ₁ τ₂).outcome =
          (m.run (b.codeBehind pc)
            (m.run (b.carried pc) (m.run (b.codeBefore pc) (init w τ)))).outcome ∧
        (m.run (b.carried pc) (m.run (b.codeBefore pc) (init w τ)) =
            m.run (b.codeBefore pc) (init w τ) ∨
          repeatableIn (b.carried pc) (b.codeBefore pc) = true →
          (m.runParts first second w τ₁ τ₂).outcome = (m.run b.insts (init w τ)).outcome) := by
  have h := check_iff_lawful.mp (verify_eq_ok.mp hb)
  obtain ⟨n, hn⟩ := Option.isSome_iff_exists.mp hpc
  obtain ⟨pre, post, hcut, rfl⟩ := exists_cut h.increasing hn
  obtain ⟨hpre, hpost⟩ := h.code_eq hcut
  refine ⟨_, _, cutBefore?_eq hcut hn, cutFrom?_eq hcut hn, by rw [hpre, hpost, hcut], ?_⟩
  intro w τ τ₁ τ₂
  have hparts := h.outcome_parts m hcut w τ τ₁ τ₂
  rw [carried, hpre, hpost] at hparts ⊢
  have hwhole : m.run b.insts (init w τ) = m.run post (m.run pre (init w τ)) := by
    rw [hcut, run_append, run_cons, step_marker]
  refine ⟨hparts, fun hidle => ?_⟩
  have hagain : m.run (carry (openTemps (.marker pc :: post)) [] pre.reverse)
      (m.run pre (init w τ)) = m.run pre (init w τ) := by
    refine hidle.elim id fun hrepeat => ?_
    obtain ⟨kept, hkept, hsub⟩ := carry_eq (openTemps (.marker pc :: post)) [] pre.reverse
    rw [List.append_nil] at hkept
    rw [List.reverse_reverse] at hsub
    have hreads := h.reads
    have hnodup := h.nodup
    rw [hcut] at hreads hnodup
    rw [definitions_append] at hnodup
    refine run_of_repeatableIn (List.nodup_append.mp hnodup).1 (ReadsDefined.append.mp hreads).1
      (fun i hi => ?_) hrepeat _
    exact hsub.subset (hkept ▸ hi)
  exact hparts.trans (by rw [hagain, hwhole])

end Body

/-- Words for values and bytes for memory, the lowest byte first; helpers do nothing. -/
def Semantics.words : Semantics Word (Word → UInt8) where
  literal o := o.staticAddress?.getD 0
  binary op x y :=
    match op with
    | .add => x + y
    | .sub => x - y
    | .mul => x * y
    | .and => x &&& y
    | .or => x ||| y
    | .xor => x ^^^ y
    | .shl => x <<< y
    | .shr => x >>> y
    | .sar => (x.toInt64 >>> y.toInt64).toUInt64
    | .eq => if x = y then 1 else 0
    | .ne => if x = y then 0 else 1
    | .ult => if x < y then 1 else 0
    | .slt => if x.toInt64 < y.toInt64 then 1 else 0
  select c x y := if c = 0 then y else x
  load memory a size :=
    (List.range size.toNat).foldr (fun k v => v * 256 + (memory (a + k.toUInt64)).toUInt64) 0
  store memory a v size := fun p =>
    if (p - a).toNat < size.toNat then (v >>> (8 * (p - a))).toUInt8 else memory p
  helper _ _ w := (0, w)

namespace Body

/-- Two machine instructions: the first reads `rax` and writes another register, and the second
stores what was read. -/
def acrossWrite (reg : String) : Body where
  insts := [.marker 16, .setPc 16, .readReg 0 "rax", .writeReg "rbx" (.temp 0),
    .writeReg reg (.const 5), .marker 18, .setPc 18, .writeReg "rcx" (.temp 0),
    .branch (.pc 20), .exit]
  nextTemp := 1

/-- A register that is not overwritten can be read again. -/
theorem run_halves_acrossWrite :
    (acrossWrite "rdx").verify 16 4 = .ok () ∧ (acrossWrite "rdx").boundaries.contains 18 = true ∧
      ∃ first second, (acrossWrite "rdx").cutBefore? 18 = some first ∧
        (acrossWrite "rdx").cutFrom? 18 = some second ∧
        ∀ (w : World Word (Word → UInt8)) (τ τ₁ τ₂ : Temp → Word),
          (Semantics.words.runParts first second w τ₁ τ₂).outcome =
            (Semantics.words.run (acrossWrite "rdx").insts (.init w τ)).outcome := by
  have hverify : (acrossWrite "rdx").verify 16 4 = .ok () := by decide
  have hpc : (acrossWrite "rdx").boundaries.contains 18 = true := by decide
  obtain ⟨first, second, hfirst, hsecond, -, hrun⟩ := run_halves Semantics.words hverify hpc
  exact ⟨hverify, hpc, first, second, hfirst, hsecond, fun w τ τ₁ τ₂ =>
    (hrun w τ τ₁ τ₂).2 (Or.inr (by decide))⟩

/-- One that is overwritten in between is read again with the new value. -/
theorem overwritten_differs :
    (acrossWrite "rax").verify 16 4 = .ok () ∧ (acrossWrite "rax").boundaries.contains 18 = true ∧
      ∃ first second, (acrossWrite "rax").cutBefore? 18 = some first ∧
        (acrossWrite "rax").cutFrom? 18 = some second ∧
        ∃ w : World Word (Word → UInt8), ∀ τ τ₁ τ₂ : Temp → Word,
          (Semantics.words.runParts first second w τ₁ τ₂).world.regs "rcx" ≠
            (Semantics.words.run (acrossWrite "rax").insts (.init w τ)).world.regs "rcx" := by
  refine ⟨by decide, by decide, _, _, rfl, rfl, ⟨fun _ => 7, fun _ => 0, 16⟩, fun τ τ₁ τ₂ => ?_⟩
  show (5 : Word) ≠ 7
  decide

end Body

end FlowRecovery
