/-
What the checks of a body decide.

Each of the checks behind `Body.check` is a recursion over the instructions.  Here
each becomes a statement about the code as a whole:

* `checkStart_eq_ok` — the body starts with its own marker;
* `checkShape_eq_ok` — markers lie inside and increase, and every instruction stands
  in its place (`Placed`);
* `checkOrder_eq_ok` — what is read was defined before (`ReadsDefined`), and the
  definitions are distinct and in range.

`placed_iff` puts the places together: such code is inner code and a raw end, an exit
with or without a branch before it.  `check_iff_lawful` is the contract of units,
clause by clause.
-/
import FlowRecovery.Proofs.Body.Markers

namespace FlowRecovery

/-! ### Temporaries -/

/-- The temporaries that the code defines, in order. -/
def definitions (insts : List Inst) : List Temp := insts.filterMap Inst.def?

@[simp] theorem definitions_append (l m : List Inst) :
    definitions (l ++ m) = definitions l ++ definitions m :=
  List.filterMap_append

@[simp] theorem definitions_cons (i : Inst) (l : List Inst) :
    definitions (i :: l) = i.def?.toList ++ definitions l := by
  unfold definitions
  rw [List.filterMap_cons]
  cases i.def? <;> rfl

theorem mem_definitions {insts : List Inst} {i : Inst} {t : Temp} (hi : i ∈ insts)
    (ht : i.def? = some t) : t ∈ definitions insts :=
  List.mem_filterMap.mpr ⟨i, hi, ht⟩

/-- If definitions are distinct, two instructions that define one temporary are the same. -/
theorem eq_of_def? {insts : List Inst} {i j : Inst} {t : Temp} (h : (definitions insts).Nodup)
    (hi : i ∈ insts) (hj : j ∈ insts) (hit : i.def? = some t) (hjt : j.def? = some t) : i = j := by
  induction insts with
  | nil => cases hi
  | cons k rest ih =>
    rw [definitions_cons] at h
    obtain ⟨-, hrest, hapart⟩ := List.nodup_append.mp h
    have hk : ∀ l ∈ rest, l.def? = some t → k.def? ≠ some t := by
      intro l hl hlt hkt
      exact hapart t (by simp [hkt]) t (mem_definitions hl hlt) rfl
    rcases List.mem_cons.mp hi with rfl | hi'
    · rcases List.mem_cons.mp hj with rfl | hj'
      · rfl
      · exact absurd hit (hk j hj' hjt)
    · rcases List.mem_cons.mp hj with rfl | hj'
      · exact absurd hjt (hk i hi' hit)
      · exact ih hrest hi' hj'

/-- Every temporary that the code reads is known or was defined before. -/
def ReadsDefined (known : List Temp) : List Inst → Prop
  | [] => True
  | i :: rest => (∀ t ∈ i.uses, t ∈ known) ∧ ReadsDefined (i.def?.toList ++ known) rest

namespace ReadsDefined

variable {known known' : List Temp} {insts l m : List Inst}

theorem mono (h : ReadsDefined known insts) (hk : ∀ t ∈ known, t ∈ known') :
    ReadsDefined known' insts := by
  induction insts generalizing known known' with
  | nil => trivial
  | cons i rest ih =>
    refine ⟨fun t ht => hk t (h.1 t ht), ih h.2 fun t ht => ?_⟩
    rcases List.mem_append.mp ht with ht | ht
    · exact List.mem_append_left _ ht
    · exact List.mem_append_right _ (hk t ht)

theorem append : ReadsDefined known (l ++ m) ↔
    ReadsDefined known l ∧ ReadsDefined (definitions l ++ known) m := by
  induction l generalizing known with
  | nil => exact ⟨fun h => ⟨trivial, h⟩, fun h => h.2⟩
  | cons i l ih =>
    rw [List.cons_append, ReadsDefined, ReadsDefined, ih, definitions_cons, and_assoc]
    -- The two sides differ only in the order in which the definitions are listed.
    have hswap : ReadsDefined (definitions l ++ (i.def?.toList ++ known)) m ↔
        ReadsDefined (i.def?.toList ++ definitions l ++ known) m := by
      constructor <;> intro h <;> refine h.mono fun t ht => ?_ <;>
        simp only [List.mem_append] at ht ⊢ <;> tauto
    rw [hswap]

/-- What is read is known, or defined somewhere in the code. -/
theorem mem_of_uses {t : Temp} {i : Inst} (h : ReadsDefined known insts) (hi : i ∈ insts)
    (ht : t ∈ i.uses) : t ∈ definitions insts ∨ t ∈ known := by
  obtain ⟨l, m, rfl⟩ := List.append_of_mem hi
  have hread := (append.mp h).2.1 t ht
  rcases List.mem_append.mp hread with hread | hread
  · exact Or.inl (by rw [definitions_append]; exact List.mem_append_left _ hread)
  · exact Or.inr hread

end ReadsDefined

namespace Body

/-- The check of temporaries: what is read was defined before, and definitions are
distinct and in range. -/
theorem checkOrder_eq_ok {next : Temp} {seen : List Temp} {insts : List Inst} :
    checkOrder next seen insts = .ok () ↔ ReadsDefined seen insts ∧ (definitions insts).Nodup ∧
      ∀ t ∈ definitions insts, t < next ∧ t ∉ seen := by
  induction insts generalizing seen with
  | nil => simp [checkOrder, ReadsDefined, definitions]
  | cons i rest ih =>
    have huses : i.uses.find? (!seen.contains ·) = none ↔ ∀ t ∈ i.uses, t ∈ seen := by
      simp [List.find?_eq_none]
    rw [checkOrder, ReadsDefined, definitions_cons]
    cases hfind : i.uses.find? (!seen.contains ·) with
    | some t =>
      have hnot : ¬ ∀ t ∈ i.uses, t ∈ seen := by
        rw [← huses, hfind]
        exact Option.some_ne_none t
      exact ⟨nofun, fun h => absurd h.1.1 hnot⟩
    | none =>
      have hall := huses.mp hfind
      cases hdef : i.def? with
      | none =>
        simp only [Option.toList_none, List.nil_append]
        rw [ih]
        exact ⟨fun h => ⟨⟨hall, h.1⟩, h.2⟩, fun h => ⟨h.1.2, h.2⟩⟩
      | some t =>
        have hlt : ¬ next ≤ t ↔ t < next := UInt32.not_le
        simp only [Option.toList_some, List.singleton_append, List.nodup_cons,
          List.forall_mem_cons]
        by_cases hrange : next ≤ t
        · rw [if_pos hrange]
          exact ⟨nofun, fun h => absurd hrange (hlt.mpr h.2.2.1.1)⟩
        · by_cases hseen : t ∈ seen
          · rw [if_neg hrange, if_pos hseen]
            exact ⟨nofun, fun h => absurd hseen h.2.2.1.2⟩
          · rw [if_neg hrange, if_neg hseen, ih]
            constructor
            · rintro ⟨hread, hnodup, hnew⟩
              refine ⟨⟨hall, hread⟩, ⟨fun hmem => ?_, hnodup⟩, ⟨hlt.mp hrange, hseen⟩, ?_⟩
              · exact (hnew t hmem).2 List.mem_cons_self
              · exact fun u hu => ⟨(hnew u hu).1, fun h => (hnew u hu).2 (List.mem_cons_of_mem _ h)⟩
            · rintro ⟨⟨-, hread⟩, ⟨hmem, hnodup⟩, -, hnew⟩
              refine ⟨hread, hnodup, fun u hu => ⟨(hnew u hu).1, fun h => ?_⟩⟩
              rcases List.mem_cons.mp h with rfl | h
              · exact hmem hu
              · exact (hnew u hu).2 h

/-! ### Places -/

theorem checkStart_eq_ok {address : Addr} {insts : List Inst} :
    checkStart address insts = .ok () ↔ insts.head? = some (.marker address) := by
  cases insts with
  | nil => simp [checkStart]
  | cons i rest =>
    cases i with
    | marker pc =>
      rw [checkStart, List.head?_cons, Option.some.injEq, Inst.marker.injEq]
      split
      · next h => exact iff_of_true rfl h
      · next h => exact iff_of_false (by simp) h
    | _ => simp [checkStart]

/-- An exit comes last, a branch right before the last instruction, and instructions of
assembled functions nowhere. -/
def Placed : List Inst → Prop
  | [] => True
  | i :: rest => (i = .exit → rest = []) ∧ (i.branch?.isSome = true → rest.length = 1) ∧
      functionLevel i = false ∧ Placed rest

theorem outOfOrder_eq_false {last : Option Addr} {pc : Addr} :
    outOfOrder last pc = false ↔ ∀ prev ∈ last.toList, prev < pc := by
  cases last with
  | none => simp [outOfOrder]
  | some prev => simp [outOfOrder]

/-- What the check of places asks of a marker that comes first. -/
theorem checkShape_marker {address limit pc : Addr} {last : Option Addr} {rest : List Inst} :
    checkShape address limit last (.marker pc :: rest) = .ok () ↔
      (address ≤ pc ∧ pc < limit) ∧ (∀ prev ∈ last.toList, prev < pc) ∧
        checkShape address limit (some pc) rest = .ok () := by
  rw [← outOfOrder_eq_false, ← UInt64.not_lt, ← UInt64.not_le (a := limit), ← not_or]
  show (if pc < address ∨ limit ≤ pc then _ else if outOfOrder last pc = true then _ else
    checkShape address limit (some pc) rest) = _ ↔ _
  by_cases hin : pc < address ∨ limit ≤ pc
  · rw [if_pos hin]
    exact ⟨nofun, fun h => absurd hin h.1⟩
  · rw [if_neg hin]
    cases horder : outOfOrder last pc with
    | true => exact ⟨nofun, fun h => nomatch h.2.1⟩
    | false => exact ⟨fun h => ⟨hin, rfl, h⟩, fun h => h.2.2⟩

/-- What the check of places asks of any other instruction that comes first. -/
theorem checkShape_other {address limit : Addr} {last : Option Addr} {i : Inst} {rest : List Inst}
    (hi : i.marker? = none) :
    checkShape address limit last (i :: rest) = .ok () ↔
      (i = .exit → rest = []) ∧ (i.branch?.isSome = true → rest.length = 1) ∧
        functionLevel i = false ∧ checkShape address limit last rest = .ok () := by
  cases i with
  | marker pc => cases hi
  | exit =>
    show (if rest ≠ [] then _ else _) = _ ↔ _
    by_cases hrest : rest = []
    · rw [if_neg (not_not_intro hrest)]
      exact ⟨fun h => ⟨fun _ => hrest, nofun, rfl, h⟩, fun h => h.2.2.2⟩
    · rw [if_pos hrest]
      exact ⟨nofun, fun h => absurd (h.1 rfl) hrest⟩
  | branch target =>
    show (if rest.length ≠ 1 then _ else _) = _ ↔ _
    by_cases hrest : rest.length = 1
    · rw [if_neg (not_not_intro hrest)]
      exact ⟨fun h => ⟨nofun, fun _ => hrest, rfl, h⟩, fun h => h.2.2.2⟩
    · rw [if_pos hrest]
      exact ⟨nofun, fun h => absurd (h.2.1 rfl) hrest⟩
  | jump _ => exact ⟨nofun, fun h => nomatch h.2.2.1⟩
  | condJump _ _ _ => exact ⟨nofun, fun h => nomatch h.2.2.1⟩
  | ret => exact ⟨nofun, fun h => nomatch h.2.2.1⟩
  | call _ _ => exact ⟨nofun, fun h => nomatch h.2.2.1⟩
  | importCall _ _ _ => exact ⟨nofun, fun h => nomatch h.2.2.1⟩
  | jumpMarker _ => exact ⟨nofun, fun h => nomatch h.2.2.1⟩
  | _ => exact ⟨fun h => ⟨nofun, nofun, rfl, h⟩, fun h => h.2.2.2⟩

/-- The check of places: every instruction stands in its place, and markers lie inside
and increase, from the one before on. -/
theorem checkShape_eq_ok {address limit : Addr} {last : Option Addr} {insts : List Inst} :
    checkShape address limit last insts = .ok () ↔ Placed insts ∧
      (∀ pc ∈ markers insts, address ≤ pc ∧ pc < limit) ∧
      (last.toList ++ markers insts).Pairwise (· < ·) := by
  induction insts generalizing last with
  | nil =>
    have hpair : (last.toList ++ markers []).Pairwise (· < ·) := by
      cases last with
      | none => exact List.Pairwise.nil
      | some prev => exact List.pairwise_singleton _ prev
    exact ⟨fun _ => ⟨trivial, nofun, hpair⟩, fun _ => rfl⟩
  | cons i rest ih =>
    cases hm : i.marker? with
    | some pc =>
      obtain rfl : i = .marker pc := by
        cases i with
        | marker p => exact congrArg Inst.marker (Option.some.inj hm)
        | _ => cases hm
      rw [checkShape_marker, ih, Placed]
      have hmarkers : markers (.marker pc :: rest) = pc :: markers rest := rfl
      rw [hmarkers, List.forall_mem_cons, Option.toList_some, List.singleton_append,
        List.pairwise_append]
      constructor
      · rintro ⟨hin, hbefore, hplaced, hinside, hpair⟩
        refine ⟨⟨nofun, nofun, rfl, hplaced⟩, ⟨hin, hinside⟩, by cases last <;> simp, hpair, ?_⟩
        intro prev hprev p hp
        rcases List.mem_cons.mp hp with rfl | hp
        · exact hbefore prev hprev
        · exact UInt64.lt_trans (hbefore prev hprev) ((List.pairwise_cons.mp hpair).1 p hp)
      · rintro ⟨⟨-, -, -, hplaced⟩, ⟨hin, hinside⟩, -, hpair, hbefore⟩
        exact ⟨hin, fun prev hprev => hbefore prev hprev pc List.mem_cons_self, hplaced, hinside,
          hpair⟩
    | none =>
      have hmarkers : markers (i :: rest) = markers rest := List.filterMap_cons_none hm
      rw [checkShape_other hm, ih, Placed, hmarkers]
      constructor
      · rintro ⟨hexit, hbranch, hlevel, hplaced, hmarkers⟩
        exact ⟨⟨hexit, hbranch, hlevel, hplaced⟩, hmarkers⟩
      · rintro ⟨⟨hexit, hbranch, hlevel, hplaced⟩, hmarkers⟩
        exact ⟨hexit, hbranch, hlevel, hplaced, hmarkers⟩

/-- The raw end of a unit. -/
def rawEnd : Option Operand → List Inst
  | none => [.exit]
  | some target => [.branch target, .exit]

end Body

/-- Whether the instruction can stand inside a unit, before its raw end. -/
def Inst.isInner (i : Inst) : Bool :=
  !Body.functionLevel i && i.branch?.isNone && decide (i ≠ .exit)

namespace Body

theorem placed_rawEnd (target : Option Operand) : Placed (rawEnd target) := by
  cases target <;> simp [rawEnd, Placed, Inst.branch?, functionLevel]

/-- Code in which every instruction stands in its place, and which ends with an exit, is
inner code and a raw end. -/
theorem placed_iff {insts : List Inst} : Placed insts ∧ insts.getLast? = some .exit ↔
    ∃ code target, insts = code ++ rawEnd target ∧ ∀ i ∈ code, i.isInner = true := by
  constructor
  · rintro ⟨hplaced, hlast⟩
    induction insts with
    | nil => cases hlast
    | cons i rest ih =>
      obtain ⟨hexit, hbranch, hlevel, hplaced⟩ := hplaced
      cases rest with
      | nil =>
        obtain rfl : i = .exit := by simpa using hlast
        exact ⟨[], none, rfl, fun _ h => absurd h List.not_mem_nil⟩
      | cons j rest =>
        rw [List.getLast?_cons_cons] at hlast
        cases hb : i.branch? with
        | some target =>
          -- A branch leaves room for one more instruction, the exit.
          have hlen : (j :: rest).length = 1 := hbranch (by rw [hb]; rfl)
          obtain rfl : rest = [] := List.eq_nil_of_length_eq_zero (by simpa using hlen)
          obtain rfl : j = .exit := by simpa using hlast
          obtain rfl : i = .branch target := Inst.eq_branch_of_branch? hb
          exact ⟨[], some target, rfl, fun _ h => absurd h List.not_mem_nil⟩
        | none =>
          obtain ⟨code, target, hcode, hinner⟩ := ih hplaced hlast
          refine ⟨i :: code, target, by rw [hcode]; rfl, ?_⟩
          rw [List.forall_mem_cons]
          refine ⟨?_, hinner⟩
          have hne : i ≠ .exit := fun h => nomatch hexit h
          simp [Inst.isInner, hlevel, hb, hne]
  · rintro ⟨code, target, rfl, hinner⟩
    refine ⟨?_, by cases target <;> simp [rawEnd]⟩
    induction code with
    | nil => exact placed_rawEnd target
    | cons i code ih =>
      obtain ⟨hi, hinner⟩ := List.forall_mem_cons.mp hinner
      simp only [Inst.isInner, Bool.and_eq_true, Bool.not_eq_true', Option.isNone_iff_eq_none,
        decide_eq_true_iff] at hi
      refine ⟨fun h => absurd h hi.2, fun h => ?_, hi.1.1, ih hinner⟩
      rw [hi.1.2] at h
      cases h

/-- The contract of a unit that covers `size` bytes from `address`, clause by clause. -/
structure Lawful (b : Body) (address : Addr) (size : Word) : Prop where
  size_ne : size ≠ 0
  start : b.insts.head? = some (.marker address)
  inside : ∀ pc ∈ markers b.insts, address ≤ pc ∧ pc < saturatingAdd address size
  increasing : (markers b.insts).Pairwise (· < ·)
  ending : ∃ code target, b.insts = code ++ rawEnd target ∧ ∀ i ∈ code, i.isInner = true
  reads : ReadsDefined [] b.insts
  nodup : (definitions b.insts).Nodup
  range : ∀ t ∈ definitions b.insts, t < b.nextTemp

/-- The check of a body decides the contract. -/
theorem check_iff_lawful {b : Body} {address : Addr} {size : Word} :
    b.check address size = .ok () ↔ b.Lawful address size := by
  rw [check_eq_ok, checkStart_eq_ok, checkShape_eq_ok, checkOrder_eq_ok]
  constructor
  · rintro ⟨hsize, hstart, ⟨hplaced, hinside, hpair⟩, hlast, hreads, hnodup, hrange⟩
    exact ⟨hsize, hstart, hinside, hpair, placed_iff.mp ⟨hplaced, hlast⟩, hreads, hnodup,
      fun t ht => (hrange t ht).1⟩
  · intro h
    obtain ⟨hplaced, hlast⟩ := placed_iff.mpr h.ending
    exact ⟨h.size_ne, h.start, ⟨hplaced, h.inside, h.increasing⟩, hlast, h.reads, h.nodup,
      fun t ht => ⟨h.range t ht, List.not_mem_nil⟩⟩

/-! ### The raw branch -/

/-- The target of the raw branch is that of the last branch in the code. -/
theorem branchTarget?_eq (b : Body) :
    b.branchTarget? = (b.insts.filterMap Inst.branch?).getLast? := by
  have h : ∀ l : List Inst, ((lastIdx? (·.branch?.isSome) l).bind fun n =>
      (l[n]?).bind Inst.branch?) = (l.filterMap Inst.branch?).getLast? := by
    intro l
    induction l with
    | nil => rfl
    | cons i l ih =>
      rw [lastIdx?, List.filterMap_cons]
      cases hidx : lastIdx? (·.branch?.isSome) l with
      | some n =>
        rw [hidx] at ih
        obtain ⟨j, hj, hbranch⟩ := lastIdx?_eq_some hidx
        have hget : (l.filterMap Inst.branch?).getLast? = j.branch? := by
          rw [← ih]
          simp [hj]
        obtain ⟨target, htarget⟩ := Option.isSome_iff_exists.mp hbranch
        cases hi : i.branch? with
        | none => simp [hj, hget]
        | some other => simp [hj, hget, List.getLast?_cons, htarget]
      | none =>
        rw [hidx] at ih
        have hnil : l.filterMap Inst.branch? = [] := List.getLast?_eq_none_iff.mp ih.symm
        cases hi : i.branch? with
        | none => simp [hnil]
        | some other => simp [hnil, hi]
  exact h b.insts

theorem filterMap_branch?_of_isInner {code : List Inst} (h : ∀ i ∈ code, i.isInner = true) :
    code.filterMap Inst.branch? = [] := by
  refine List.filterMap_eq_nil_iff.mpr fun i hi => ?_
  have hinner := h i hi
  simp only [Inst.isInner, Bool.and_eq_true, Option.isNone_iff_eq_none] at hinner
  exact hinner.1.2

theorem branchTarget?_of_rawEnd {b : Body} {code : List Inst} {target : Option Operand}
    (hb : b.insts = code ++ rawEnd target) (hinner : ∀ i ∈ code, i.isInner = true) :
    b.branchTarget? = target := by
  rw [branchTarget?_eq, hb, List.filterMap_append, filterMap_branch?_of_isInner hinner]
  cases target <;> rfl

/-- If definitions are distinct, the definition of a temporary is the one instruction that
defines it. -/
theorem definition?_of_nodup {b : Body} {t : Temp} {i : Inst} (h : (definitions b.insts).Nodup)
    (hi : i ∈ b.insts) (hdef : i.def? = some t) : b.definition? t = some i := by
  cases hd : b.definition? t with
  | none =>
    have hno := List.find?_eq_none.mp hd i hi
    simp [hdef] at hno
  | some j =>
    have hj : j ∈ b.insts := List.mem_of_find?_eq_some hd
    have hjdef : j.def? = some t := by simpa using List.find?_some hd
    rw [eq_of_def? h hj hi hjdef hdef]

theorem Lawful.definition?_eq_some {b : Body} {address : Addr} {size : Word} {t : Temp} {i : Inst}
    (h : b.Lawful address size) : b.definition? t = some i ↔ i ∈ b.insts ∧ i.def? = some t := by
  constructor
  · intro hd
    exact ⟨List.mem_of_find?_eq_some hd, by simpa using List.find?_some hd⟩
  · rintro ⟨hi, hdef⟩
    exact definition?_of_nodup h.nodup hi hdef

end Body

end FlowRecovery
