/-
The contract of lifted units, position by position.

`Body.verify` goes through the code twice: once over places, with the last marker at hand, and
once over temporaries, with those seen so far.  Both passes stop at the first fault.  What they
decide together can be said without passes: each clause of `Body.Contract` is about the
instructions at one or two positions.  What an instruction defines and reads is said by relations
with one rule for each place in an instruction.

* `Inst.def?_eq_some`, `Inst.mem_operands`, `Inst.mem_uses` — the views compute these relations;
* `placed_iff_getElem?` — exits, branches and instructions of assembled functions;
* `pairwise_markers_iff`, `nodup_definitions_iff` — the order of markers, and that definitions
  are distinct;
* `readsDefined_iff_getElem?` — what is read was defined at an earlier position;
* `verify_decides_contract` — the check accepts exactly the bodies that keep the contract.
-/
import FlowRecovery.Proofs.Body.Checks
import FlowRecovery.Proofs.Lists

namespace FlowRecovery

namespace Inst

/-- The instruction defines the temporary. -/
inductive Defines : Inst → Temp → Prop
  | readReg (t : Temp) (reg : String) : Defines (.readReg t reg) t
  | binary (t : Temp) (op : BinOp) (lhs rhs : Operand) : Defines (.binary t op lhs rhs) t
  | select (t : Temp) (cond ifTrue ifFalse : Operand) : Defines (.select t cond ifTrue ifFalse) t
  | load (t : Temp) (addr : Operand) (size : UInt8) : Defines (.load t addr size) t
  | helper (t : Temp) (name : String) (args : List Operand) : Defines (.helper (some t) name args) t

/-- The operand stands in one of the places of the instruction. -/
inductive Reads : Inst → Operand → Prop
  | writeReg (reg : String) (o : Operand) : Reads (.writeReg reg o) o
  | lhs (t : Temp) (op : BinOp) (o rhs : Operand) : Reads (.binary t op o rhs) o
  | rhs (t : Temp) (op : BinOp) (lhs o : Operand) : Reads (.binary t op lhs o) o
  | selectCond (t : Temp) (o ifTrue ifFalse : Operand) : Reads (.select t o ifTrue ifFalse) o
  | ifTrue (t : Temp) (cond o ifFalse : Operand) : Reads (.select t cond o ifFalse) o
  | ifFalse (t : Temp) (cond ifTrue o : Operand) : Reads (.select t cond ifTrue o) o
  | load (t : Temp) (o : Operand) (size : UInt8) : Reads (.load t o size) o
  | storeAddr (o value : Operand) (size : UInt8) : Reads (.store o value size) o
  | storeValue (addr o : Operand) (size : UInt8) : Reads (.store addr o size) o
  | helper (dst : Option Temp) (name : String) (args : List Operand) (o : Operand) (h : o ∈ args) :
      Reads (.helper dst name args) o
  | branch (o : Operand) : Reads (.branch o) o
  | markerTarget (o : Operand) (isStatic : Bool) (state : Operand) :
      Reads (.callMarker o isStatic state) o
  | markerState (target : Operand) (isStatic : Bool) (o : Operand) :
      Reads (.callMarker target isStatic o) o
  | returnMarker (o : Operand) : Reads (.returnMarker o) o
  | jumpMarker (o : Operand) : Reads (.jumpMarker o) o
  /-- Of all callees only an indirect one holds an operand. -/
  | callee (o state : Operand) : Reads (.call (.indirect o) state) o
  | callState (callee : Callee) (o : Operand) : Reads (.call callee o) o
  | jumpCond (o : Operand) (thenLabel elseLabel : String) :
      Reads (.condJump o thenLabel elseLabel) o

variable {i : Inst}

theorem marker?_eq_some {pc : Addr} : i.marker? = some pc ↔ i = .marker pc := by
  constructor
  · intro h
    cases i with
    | marker p => exact congrArg marker (Option.some.inj h)
    | _ => cases h
  · rintro rfl
    rfl

theorem def?_eq_some {t : Temp} : i.def? = some t ↔ i.Defines t := by
  constructor
  · intro h
    cases i with
    | helper dst name args =>
      obtain rfl : dst = some t := h
      exact .helper t name args
    | readReg | binary | select | load =>
      cases h
      constructor
    | _ => cases h
  · intro h
    cases h <;> rfl

theorem mem_operands {o : Operand} : o ∈ i.operands ↔ i.Reads o := by
  constructor
  · intro h
    cases i with
    | helper dst name args => exact .helper dst name args o h
    | writeReg | load | branch | returnMarker | jumpMarker | condJump =>
      obtain rfl := List.mem_singleton.mp h
      constructor
    | binary | store | callMarker => rcases List.mem_pair.mp h with rfl | rfl <;> constructor
    | select dst cond ifTrue ifFalse =>
      rcases List.mem_cons.mp h with rfl | h
      · exact .selectCond dst o ifTrue ifFalse
      · rcases List.mem_pair.mp h with rfl | rfl <;> constructor
    | call callee state =>
      cases callee with
      | indirect target => rcases List.mem_pair.mp h with rfl | rfl <;> constructor
      | _ =>
        obtain rfl := List.mem_singleton.mp h
        constructor
    | _ => cases h
  · intro h
    cases h with
    | helper dst name args o h => exact h
    | callState callee o => cases callee <;> simp [operands]
    | _ => simp [operands]

theorem mem_uses {t : Temp} : t ∈ i.uses ↔ i.Reads (.temp t) := by
  have htemp : ∀ o : Operand, o.temp? = some t ↔ o = .temp t := by
    intro o
    cases o <;> simp [Operand.temp?]
  simp only [uses, List.mem_filterMap, mem_operands, htemp, exists_eq_right]

end Inst

/-- Markers increase exactly if of any two the later one is greater. -/
theorem pairwise_markers_iff {insts : List Inst} : (markers insts).Pairwise (· < ·) ↔
    ∀ (m n : Nat) p q, m < n → insts[m]? = some (.marker p) → insts[n]? = some (.marker q) →
      p < q := by
  rw [markers, pairwise_filterMap_iff]
  constructor
  · intro h m n p q hmn hp hq
    exact h m n _ _ p q hmn hp hq rfl rfl
  · intro h m n i j p q hmn hi hj hp hq
    rw [Inst.marker?_eq_some] at hp hq
    exact h m n p q hmn (hp ▸ hi) (hq ▸ hj)

theorem mem_markers_iff {insts : List Inst} {pc : Addr} :
    pc ∈ markers insts ↔ ∃ n : Nat, insts[n]? = some (.marker pc) := by
  rw [← List.mem_iff_getElem?, markers, List.mem_filterMap]
  simp only [Inst.marker?_eq_some, exists_eq_right]

/-- Definitions are distinct exactly if no two positions define the same temporary. -/
theorem nodup_definitions_iff {insts : List Inst} : (definitions insts).Nodup ↔
    ∀ (m n : Nat) i j t, insts[m]? = some i → insts[n]? = some j →
      i.Defines t → j.Defines t → m = n := by
  simp only [definitions, nodup_filterMap_iff, Inst.def?_eq_some]

theorem mem_definitions_iff {insts : List Inst} {t : Temp} :
    t ∈ definitions insts ↔ ∃ i ∈ insts, i.Defines t := by
  simp only [definitions, List.mem_filterMap, Inst.def?_eq_some]

/-- What the code reads is known, or was defined at an earlier position. -/
theorem readsDefined_iff_getElem? {known : List Temp} {insts : List Inst} :
    ReadsDefined known insts ↔
      ∀ (n : Nat) i t, insts[n]? = some i → i.Reads (.temp t) →
        t ∈ known ∨ ∃ (m : Nat) (j : Inst), m < n ∧ insts[m]? = some j ∧ j.Defines t := by
  simp only [← Inst.mem_uses, ← Inst.def?_eq_some]
  -- What is known at a position is what was known at first and what was defined since.
  induction insts generalizing known with
  | nil => exact ⟨fun _ n i t hn => (nomatch hn), fun _ => trivial⟩
  | cons first rest ih =>
    rw [ReadsDefined, ih]
    constructor
    · rintro ⟨hfirst, hrest⟩ n i t hn ht
      cases n with
      | zero =>
        obtain rfl : first = i := Option.some.inj hn
        exact Or.inl (hfirst t ht)
      | succ n =>
        rw [List.getElem?_cons_succ] at hn
        rcases hrest n i t hn ht with hmem | ⟨m, j, hmn, hj, hjt⟩
        · rcases List.mem_append.mp hmem with hdef | hknown
          · exact Or.inr ⟨0, first, Nat.succ_pos n, rfl, Option.mem_toList.mp hdef⟩
          · exact Or.inl hknown
        · exact Or.inr ⟨m + 1, j, Nat.succ_lt_succ hmn, hj, hjt⟩
    · intro h
      constructor
      · intro t ht
        rcases h 0 first t rfl ht with hknown | ⟨m, j, hm, -⟩
        · exact hknown
        · exact absurd hm (Nat.not_lt_zero m)
      · intro n i t hn ht
        rcases h (n + 1) i t hn ht with hknown | ⟨m, j, hmn, hj, hjt⟩
        · exact Or.inl (List.mem_append_right _ hknown)
        · cases m with
          | zero =>
            obtain rfl : first = j := Option.some.inj hj
            exact Or.inl (List.mem_append_left _ (Option.mem_toList.mpr hjt))
          | succ m => exact Or.inr ⟨m, j, by omega, hj, hjt⟩

namespace Body

/-- Every instruction stands in its place exactly if exits come last, branches right before the
last instruction, and instructions of assembled functions nowhere. -/
theorem placed_iff_getElem? {insts : List Inst} :
    Placed insts ↔ ∀ (n : Nat) i, insts[n]? = some i →
      (i = .exit → n + 1 = insts.length) ∧ (i.branch?.isSome = true → n + 2 = insts.length) ∧
        functionLevel i = false := by
  induction insts with
  | nil => exact ⟨fun _ n i hn => (nomatch hn), fun _ => trivial⟩
  | cons first rest ih =>
    rw [Placed, ih]
    simp only [List.length_cons]
    constructor
    · rintro ⟨hexit, hbranch, hlevel, hrest⟩ n i hn
      cases n with
      | zero =>
        obtain rfl : first = i := Option.some.inj hn
        refine ⟨fun he => ?_, fun hb => ?_, hlevel⟩
        · rw [hexit he, List.length_nil]
        · rw [hbranch hb]
      | succ n =>
        obtain ⟨he, hb, hl⟩ := hrest n i hn
        exact ⟨fun h => by rw [he h], fun h => by rw [← hb h], hl⟩
    · intro h
      obtain ⟨hexit, hbranch, hlevel⟩ := h 0 first rfl
      refine ⟨fun he => ?_, fun hb => ?_, hlevel, ?_⟩
      · have := hexit he
        exact List.eq_nil_of_length_eq_zero (by omega)
      · have := hbranch hb
        omega
      · intro n i hn
        obtain ⟨he, hb, hl⟩ := h (n + 1) i hn
        exact ⟨fun h => Nat.succ.inj (he h), fun h => Nat.succ.inj (hb h), hl⟩

theorem functionLevel_eq_false {i : Inst} : functionLevel i = false ↔
    (∀ label, i ≠ .jump label) ∧
      (∀ cond thenLabel elseLabel, i ≠ .condJump cond thenLabel elseLabel) ∧ i ≠ .ret ∧
      (∀ callee state, i ≠ .call callee state) ∧
      (∀ name library convention, i ≠ .importCall name library convention) ∧
      ∀ target, i ≠ .jumpMarker target := by
  cases i <;> simp [functionLevel]

/-- The contract of a unit that covers `size` bytes from `address`, position by position. -/
structure Contract (b : Body) (address : Addr) (size : Word) : Prop where
  size_pos : 0 < size.toNat
  start : b.insts[0]? = some (.marker address)
  /-- Markers increase. -/
  increasing : ∀ (m n : Nat) p q, m < n → b.insts[m]? = some (.marker p) →
    b.insts[n]? = some (.marker q) → p < q
  /-- Markers lie inside; the last word of the memory never does. -/
  inside : ∀ (n : Nat) pc, b.insts[n]? = some (.marker pc) → address.toNat ≤ pc.toNat ∧
    pc.toNat < min (address.toNat + size.toNat) 0xffffffffffffffff
  /-- The last instruction, and no other, is an exit. -/
  exit : ∀ n : Nat, b.insts[n]? = some .exit ↔ n + 1 = b.insts.length
  /-- A branch can only be the last instruction but one. -/
  branch : ∀ (n : Nat) target, b.insts[n]? = some (.branch target) → n + 2 = b.insts.length
  /-- Instructions of assembled functions do not occur. -/
  level : ∀ i ∈ b.insts, (∀ label, i ≠ .jump label) ∧
    (∀ cond thenLabel elseLabel, i ≠ .condJump cond thenLabel elseLabel) ∧ i ≠ .ret ∧
    (∀ callee state, i ≠ .call callee state) ∧
    (∀ name library convention, i ≠ .importCall name library convention) ∧
    ∀ target, i ≠ .jumpMarker target
  /-- No temporary is defined at two positions. -/
  once : ∀ (m n : Nat) i j t, b.insts[m]? = some i → b.insts[n]? = some j →
    i.Defines t → j.Defines t → m = n
  range : ∀ i ∈ b.insts, ∀ t, i.Defines t → t < b.nextTemp
  /-- What is read at a position is defined at an earlier one. -/
  reads : ∀ (n : Nat) i t, b.insts[n]? = some i → i.Reads (.temp t) →
    ∃ (m : Nat) (j : Inst), m < n ∧ b.insts[m]? = some j ∧ j.Defines t

theorem inside_iff {address pc : Addr} {size : Word} :
    address ≤ pc ∧ pc < saturatingAdd address size ↔ address.toNat ≤ pc.toNat ∧
      pc.toNat < min (address.toNat + size.toNat) 0xffffffffffffffff := by
  rw [UInt64.le_iff_toNat_le, UInt64.lt_iff_toNat_lt, toNat_saturatingAdd]

/-- **The check of a body decides the contract of lifted units.**  It accepts a body for an
address and a size exactly if the body keeps the contract of units there. -/
theorem verify_decides_contract (b : Body) (address : Addr) (size : Word) :
    b.verify address size = .ok () ↔ b.Contract address size := by
  have hsize : size ≠ 0 ↔ 0 < size.toNat := by
    rw [Nat.pos_iff_ne_zero, Ne, Ne, ← UInt64.toNat_inj]
    rfl
  -- Both passes, said of positions; what is left is to sort the clauses.
  rw [verify_eq_ok, check_eq_ok, hsize, checkStart_eq_ok, checkShape_eq_ok, checkOrder_eq_ok,
    placed_iff_getElem?, Option.toList_none, List.nil_append, pairwise_markers_iff,
    readsDefined_iff_getElem?, nodup_definitions_iff, List.head?_eq_getElem?,
    List.getLast?_eq_getElem?]
  constructor
  · rintro ⟨hpos, hstart, ⟨hplaced, hinside, hincreasing⟩, hlast, hreads, honce, hrange⟩
    refine ⟨hpos, hstart, hincreasing, ?_, ?_, ?_, ?_, honce, ?_, ?_⟩
    · intro n pc hn
      exact inside_iff.mp (hinside pc (mem_markers_iff.mpr ⟨n, hn⟩))
    · intro n
      constructor
      · intro hn
        exact (hplaced n _ hn).1 rfl
      · intro hn
        rw [← hlast]
        congr 1
        omega
    · intro n target hn
      exact (hplaced n _ hn).2.1 rfl
    · intro i hi
      obtain ⟨n, hn⟩ := List.mem_iff_getElem?.mp hi
      exact functionLevel_eq_false.mp (hplaced n i hn).2.2
    · intro i hi t ht
      exact (hrange t (mem_definitions_iff.mpr ⟨i, hi, ht⟩)).1
    · intro n i t hn ht
      exact (hreads n i t hn ht).resolve_left List.not_mem_nil
  · intro h
    have hlen : 0 < b.insts.length := (List.getElem?_eq_some_iff.mp h.start).1
    refine ⟨h.size_pos, h.start, ⟨?_, ?_, h.increasing⟩, ?_, ?_, h.once, ?_⟩
    · intro n i hn
      refine ⟨?_, ?_, functionLevel_eq_false.mpr (h.level i (List.mem_of_getElem? hn))⟩
      · rintro rfl
        exact (h.exit n).mp hn
      · intro hb
        obtain ⟨target, htarget⟩ := Option.isSome_iff_exists.mp hb
        exact h.branch n target (Inst.eq_branch_of_branch? htarget ▸ hn)
    · intro pc hpc
      obtain ⟨n, hn⟩ := mem_markers_iff.mp hpc
      exact inside_iff.mpr (h.inside n pc hn)
    · exact (h.exit _).mpr (by omega)
    · intro n i t hn ht
      exact Or.inr (h.reads n i t hn ht)
    · intro t ht
      obtain ⟨i, hi, hit⟩ := mem_definitions_iff.mp ht
      exact ⟨h.range i hi t hit, List.not_mem_nil⟩

end Body

end FlowRecovery
