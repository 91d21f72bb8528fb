/-
Renumbered code.

Before a block is emitted, its temporaries are moved behind those of the blocks before
it.  What the code reads, defines and ends with is renumbered with it; nothing else
about the code changes.

* `Lawful.shift_eq_ok` — the temporaries of a lawful body can be moved exactly if the
  first free one can, which is above all others;
* `definitions_renumber`, `nodup_renumber`, `range_renumber` — the definitions after
  the move;
* `dropBranch_rawEnd` — the raw end comes off the code.
-/
import FlowRecovery.Assembly
import FlowRecovery.Proofs.Module.Functions

namespace FlowRecovery

theorem Operand.temp?_mapTemp (f : Temp → Temp) (o : Operand) :
    (o.mapTemp f).temp? = o.temp?.map f := by
  cases o <;> rfl

namespace Inst

variable (f : Temp → Temp) (i : Inst)

@[simp] theorem operands_mapDef : (i.mapDef f).operands = i.operands := by
  cases i with
  | call callee state => cases callee <;> rfl
  | _ => rfl

@[simp] theorem def?_mapDef : (i.mapDef f).def? = i.def?.map f := by
  cases i <;> rfl

@[simp] theorem def?_mapTemps : (i.mapTemps f).def? = i.def?.map f := by
  rw [mapTemps, mapOperands, def?_setOperands, def?_mapDef]

@[simp] theorem operands_mapTemps :
    (i.mapTemps f).operands = i.operands.map (Operand.mapTemp f) := by
  rw [mapTemps, operands_mapOperands, operands_mapDef]

@[simp] theorem uses_mapTemps : (i.mapTemps f).uses = i.uses.map f := by
  rw [uses, operands_mapTemps, List.filterMap_map, uses, List.map_filterMap]
  exact List.filterMap_congr fun o _ => Operand.temp?_mapTemp f o

@[simp] theorem isTerminator_mapTemps : (i.mapTemps f).isTerminator = i.isTerminator := by
  cases i with
  | call callee state => cases callee <;> rfl
  | _ => rfl

@[simp] theorem isInner_mapTemps : (i.mapTemps f).isInner = i.isInner := by
  cases i with
  | call callee state => cases callee <;> rfl
  | _ => rfl

theorem isTerminator_of_isInner {i : Inst} (h : i.isInner = true) : i.isTerminator = false := by
  cases i with
  | jump label => cases h
  | condJump cond thenLabel elseLabel => cases h
  | ret => cases h
  | _ => rfl

theorem targets_of_isTerminator {i : Inst} (h : i.isTerminator = false) : i.targets = [] := by
  cases i with
  | jump label => cases h
  | condJump cond thenLabel elseLabel => cases h
  | _ => rfl

theorem isRaw_of_isInner {i : Inst} (h : i.isInner = true) : i.isRaw = false := by
  simp only [isInner, Bool.and_eq_true, Option.isNone_iff_eq_none, decide_eq_true_iff] at h
  simp [isRaw, h.1.2, h.2]

end Inst

/-- The code with `base` added to every temporary. -/
def renumber (base : Temp) (insts : List Inst) : List Inst :=
  insts.map (Inst.mapTemps (· + base))

@[simp] theorem renumber_append (base : Temp) (l m : List Inst) :
    renumber base (l ++ m) = renumber base l ++ renumber base m :=
  List.map_append

theorem isInner_renumber {base : Temp} {insts : List Inst} (h : ∀ i ∈ insts, i.isInner = true) :
    ∀ i ∈ renumber base insts, i.isInner = true := by
  intro i hi
  obtain ⟨j, hj, rfl⟩ := List.mem_map.mp hi
  rw [Inst.isInner_mapTemps]
  exact h j hj

theorem definitions_renumber (base : Temp) (insts : List Inst) :
    definitions (renumber base insts) = (definitions insts).map (· + base) := by
  rw [definitions, renumber, List.filterMap_map, definitions, List.map_filterMap]
  exact List.filterMap_congr fun i _ => Inst.def?_mapTemps _ i

theorem nodup_renumber {base : Temp} {insts : List Inst} (h : (definitions insts).Nodup) :
    (definitions (renumber base insts)).Nodup := by
  rw [definitions_renumber]
  exact h.map fun t u htu => by simpa using htu

/-- Renumbered definitions lie between the base and what the bound becomes. -/
theorem range_renumber {base next : Temp} {insts : List Inst}
    (h : ∀ t ∈ definitions insts, t < next) (hroom : next.toNat + base.toNat < 0x100000000) :
    ∀ t ∈ definitions (renumber base insts),
      base.toNat ≤ t.toNat ∧ t.toNat < next.toNat + base.toNat := by
  intro t ht
  rw [definitions_renumber] at ht
  obtain ⟨u, hu, rfl⟩ := List.mem_map.mp ht
  have hlt : u.toNat < next.toNat := UInt32.lt_iff_toNat_lt.mp (h u hu)
  rw [UInt32.toNat_add, Nat.mod_eq_of_lt (by omega)]
  omega

/-- Renumbered code reads what was defined before, if the code does. -/
theorem readsDefined_renumber (base : Temp) {known : List Temp} {insts : List Inst}
    (h : ReadsDefined known insts) :
    ReadsDefined (known.map (· + base)) (renumber base insts) := by
  induction insts generalizing known with
  | nil => trivial
  | cons i insts ih =>
    refine ⟨?_, ?_⟩
    · intro t ht
      rw [Inst.uses_mapTemps] at ht
      obtain ⟨u, hu, rfl⟩ := List.mem_map.mp ht
      exact List.mem_map_of_mem (h.1 u hu)
    · have hrest := ih h.2
      rw [List.map_append, ← Option.toList_map, ← Inst.def?_mapTemps] at hrest
      exact hrest

/-- What renumbered code reads is defined if what the code reads is. -/
theorem reads_renumber (base : Temp) {insts : List Inst} (h : ReadsDefined [] insts) :
    ∀ i ∈ renumber base insts, ∀ t ∈ i.uses, t ∈ definitions (renumber base insts) := by
  intro i hi t ht
  exact ((readsDefined_renumber base h).mem_of_uses hi ht).resolve_right List.not_mem_nil

namespace Body

@[simp] theorem definitions_rawEnd (target : Option Operand) :
    definitions (rawEnd target) = [] := by
  cases target <;> rfl

theorem renumber_rawEnd (base : Temp) (target : Option Operand) :
    renumber base (rawEnd target) = rawEnd (target.map (Operand.mapTemp (· + base))) := by
  cases target <;> rfl

theorem eq_renumber {ε : Type} {base : Temp} {l m : List Inst}
    (h : List.Forall₂ (fun i j => (Inst.shift base i : Checked ε Inst) = .ok j) l m) :
    m = renumber base l := by
  induction h with
  | nil => rfl
  | cons hi _ ih =>
    unfold Inst.shift at hi
    split at hi
    · cases hi
      rw [ih]
      rfl
    · cases hi

/-- The temporaries of a lawful body can be moved if the first free one can. -/
theorem Lawful.shift_eq_ok {ε : Type} {b c : Body} {address : Addr} {size : Word} {base : Temp}
    (h : b.Lawful address size) :
    (b.shift base : Checked ε Body) = .ok c ↔
      b.nextTemp.toNat + base.toNat = c.nextTemp.toNat ∧ c.insts = renumber base b.insts := by
  unfold shift
  constructor
  · intro hok
    obtain ⟨insts, hinsts, hok⟩ := Checked.bind_eq_ok.mp hok
    obtain ⟨next, hnext, hok⟩ := Checked.bind_eq_ok.mp hok
    cases hok
    exact ⟨checkedAdd32_eq_ok.mp hnext, eq_renumber (forall₂_of_mapM_eq_ok hinsts)⟩
  · rintro ⟨hnext, hinsts⟩
    have hbelow : ∀ i ∈ b.insts, ∀ t ∈ i.temps, t < b.nextTemp := by
      intro i hi t ht
      rcases List.mem_append.mp ht with ht | ht
      · exact h.range t (mem_definitions hi (Option.mem_toList.mp ht))
      · exact h.range t ((h.reads.mem_of_uses hi ht).resolve_right List.not_mem_nil)
    have hshift : ∀ i ∈ b.insts, (Inst.shift base i : Checked ε Inst) =
        .ok (i.mapTemps (· + base)) := by
      intro i hi
      refine if_pos (List.all_eq_true.mpr fun t ht => decide_eq_true ?_)
      have hlt := UInt32.lt_iff_toNat_lt.mp (hbelow i hi t ht)
      have := c.nextTemp.toNat_lt
      omega
    refine Checked.bind_eq_ok.mpr ⟨_, mapM_eq_ok hshift, Checked.bind_eq_ok.mpr
      ⟨_, checkedAdd32_eq_ok.mpr hnext, ?_⟩⟩
    rw [show b.insts.map (Inst.mapTemps (· + base)) = c.insts from hinsts.symm]
    rfl

/-- The body with `base` added to every temporary, if none leaves the range. -/
def renumbered (base : Temp) (b : Body) : Body :=
  { insts := renumber base b.insts, nextTemp := b.nextTemp + base }

theorem toNat_nextTemp_renumbered {base : Temp} {b : Body}
    (h : b.nextTemp.toNat + base.toNat < 0x100000000) :
    (b.renumbered base).nextTemp.toNat = b.nextTemp.toNat + base.toNat := by
  show (b.nextTemp + base).toNat = _
  rw [UInt32.toNat_add, Nat.mod_eq_of_lt h]

theorem Lawful.shift_of_room {ε : Type} {b : Body} {address : Addr} {size : Word} {base : Temp}
    (h : b.Lawful address size) (hroom : b.nextTemp.toNat + base.toNat < 0x100000000) :
    (b.shift base : Checked ε Body) = .ok (b.renumbered base) :=
  h.shift_eq_ok.mpr ⟨(toNat_nextTemp_renumbered hroom).symm, rfl⟩

end Body

/-- The raw end comes off the code. -/
theorem dropBranch_rawEnd {code : List Inst} (target : Option Operand)
    (h : ∀ i ∈ code, i.isInner = true) :
    dropBranch (code ++ Body.rawEnd target) = (code, target) := by
  cases target with
  | some target => simp [dropBranch, Body.rawEnd]
  | none =>
    have hdrop : ∀ t, code.getLast? ≠ some (.branch t) := by
      intro t ht
      exact absurd (h _ (List.mem_of_getLast? ht)) (by simp [Inst.isInner, Inst.branch?])
    -- By `hdrop`, what is left once the exit is gone does not end in a branch.
    simp only [Body.rawEnd, dropBranch, List.getLast?_concat, List.dropLast_concat, if_true]

end FlowRecovery
