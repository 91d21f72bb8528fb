/-
How control leaves a unit.

`Body.Transfers` says what the raw branch of a unit of each kind is: a literal, a
temporary that selects one of two operands, or anything.  Classification only adds
markers, and a split keeps the branch and the definition of its target in the second
half: so whatever a unit is made into ends as the unit did (`SameEnd`), or it is a front
part that goes on at the next part.

* `sameEnd_marked`, `Halves.sameEnd` — marking and splitting keep the end of the body;
* `Classified.constants_eq`, `Classified.definitions_eq` — and classification keeps the
  numbers and the definitions in the code;
* `From.cases` — the blocks that a unit is classified and split into are front parts
  and rear parts;
* `From.transfers`, `From.onward` — so the contract holds of all of them.
-/
import FlowRecovery.Proofs.Body.Cut

namespace FlowRecovery

namespace Body

/-- The raw branch goes to a temporary that selects one of two operands, of which `P`
holds. -/
def Selects (b : Body) (P : Operand → Operand → Prop) : Prop :=
  ∃ t cond x y, b.branchTarget? = some (.temp t) ∧
    b.definition? t = some (.select t cond x y) ∧ P x y

/-- What the raw branch of a unit of the given kind is. -/
def Transfers (b : Body) : BlockKind → Prop
  | .fallthrough => ∃ v, b.branchTarget? = some (.pc v)
  | .jump => ∃ v, b.branchTarget? = some (.pc v)
  | .condJump => b.Selects fun x y => ∃ v w, x = .pc v ∧ y = .pc w
  | .repeatedOp => b.Selects fun x y => ∃ v w, x = .pc v ∧ y = .pc w
  | .condJumpIndirect => b.Selects fun x y => x.pc?.isSome ≠ y.pc?.isSome
  | .jumpIndirect => ∃ target, b.branchTarget? = some target
  | _ => True

/-- Two bodies branch to the same target, and compute it in the same way. -/
structure SameEnd (b c : Body) : Prop where
  branch : c.branchTarget? = b.branchTarget?
  definition : ∀ t, b.branchTarget? = some (.temp t) → c.definition? t = b.definition? t

namespace SameEnd

variable {b c d : Body}

theorem refl (b : Body) : SameEnd b b := ⟨rfl, fun _ _ => rfl⟩

theorem trans (h : SameEnd b c) (h' : SameEnd c d) : SameEnd b d :=
  ⟨h'.branch.trans h.branch, fun t ht =>
    (h'.definition t (h.branch.trans ht)).trans (h.definition t ht)⟩

theorem staticTargets (h : SameEnd b c) : c.staticTargets = b.staticTargets := by
  unfold Body.staticTargets
  rw [h.branch]
  cases hb : b.branchTarget? with
  | none => rfl
  | some target =>
    cases target with
    | temp t =>
      have hsame : (Operand.temp t).temp?.bind c.definition? =
          (Operand.temp t).temp?.bind b.definition? := h.definition t hb
      simp only [hsame]
    | _ => rfl

theorem transfers (h : SameEnd b c) {kind : BlockKind} (hb : b.Transfers kind) :
    c.Transfers kind := by
  have hselects : ∀ {P : Operand → Operand → Prop}, b.Selects P → c.Selects P := by
    rintro P ⟨t, cond, x, y, ht, hdef, hP⟩
    exact ⟨t, cond, x, y, h.branch.trans ht, (h.definition t ht).trans hdef, hP⟩
  cases kind with
  | condJump => exact hselects hb
  | repeatedOp => exact hselects hb
  | condJumpIndirect => exact hselects hb
  | fallthrough => exact hb.imp fun v hv => h.branch.trans hv
  | jump => exact hb.imp fun v hv => h.branch.trans hv
  | jumpIndirect => exact hb.imp fun v hv => h.branch.trans hv
  | _ => trivial

end SameEnd

theorem staticTargets_of_pc {b : Body} {v : Addr} (h : b.branchTarget? = some (.pc v)) :
    b.staticTargets = [v] := by
  rw [staticTargets, h]

theorem staticTargets_of_select {b : Body} {t dst : Temp} {cond x y : Operand}
    (h : b.branchTarget? = some (.temp t)) (hdef : b.definition? t = some (.select dst cond x y)) :
    b.staticTargets = [x, y].filterMap Operand.pc? := by
  have hbind : (Operand.temp t).temp?.bind b.definition? = some (.select dst cond x y) := hdef
  simp only [staticTargets, h, hbind]

end Body

namespace Lifted

/-- What a body holds besides markers is still there once it is marked. -/
theorem flatMap_mark {β : Type} {g : Inst → List β} (hg : ∀ pc, g (.marker pc) = [])
    (seen : AddrSet) (insts : List Inst) : (mark seen insts).flatMap g = insts.flatMap g := by
  induction insts generalizing seen with
  | nil => rfl
  | cons i insts ih =>
    cases i with
    | setPc pc =>
      rw [mark]
      split
      · rw [List.flatMap_cons, ih, List.flatMap_cons]
      · rw [List.flatMap_cons, hg, List.nil_append, List.flatMap_cons, ih, List.flatMap_cons]
    | _ =>
      rw [mark, List.flatMap_cons, ih, List.flatMap_cons]
      intro _ h
      cases h

theorem filterMap_mark {β : Type} {f : Inst → Option β} (hf : ∀ pc, f (.marker pc) = none)
    (seen : AddrSet) (insts : List Inst) :
    (mark seen insts).filterMap f = insts.filterMap f := by
  rw [List.filterMap_eq_flatMap_toList, List.filterMap_eq_flatMap_toList]
  exact flatMap_mark (fun pc => by rw [hf]; rfl) seen insts

theorem sameEnd_marked (u : Lifted) : Body.SameEnd u.body u.marked := by
  refine ⟨?_, fun t _ => ?_⟩
  · rw [Body.branchTarget?_eq, Body.branchTarget?_eq]
    exact congrArg _ (filterMap_mark (fun _ => rfl) _ _)
  · show (mark ∅ u.body.insts).find? _ = u.body.insts.find? _
    rw [List.find?_eq_findSome?_guard, List.find?_eq_findSome?_guard, ← List.head?_filterMap,
      ← List.head?_filterMap]
    exact congrArg _ (filterMap_mark (fun _ => rfl) _ _)

/-- So is what it holds besides raw branches, once those of calls and returns are markers. -/
theorem flatMap_markTransfer {β : Type} {g : Inst → List β} {kind : BlockKind} {b c : Body}
    (hg : ∀ target, g (transferMarker kind target) = g (.branch target))
    (h : markTransfer kind b = some c) : c.insts.flatMap g = b.insts.flatMap g := by
  rcases markTransfer_cases h with ⟨-, -, rfl⟩ | ⟨-, pre, target, post, hinsts, rfl, -⟩
  · rfl
  · rw [hinsts, List.flatMap_append, List.flatMap_cons, hg, List.flatMap_append,
      List.flatMap_cons]

end Lifted

namespace Block

theorem Classified.flatMap_eq {β : Type} {g : Inst → List β} {u : Lifted} {b : Block}
    (h : Classified u b) (hmarker : ∀ pc, g (.marker pc) = [])
    (htransfer : ∀ kind target, g (Lifted.transferMarker kind target) = g (.branch target)) :
    b.body.insts.flatMap g = u.body.insts.flatMap g :=
  (Lifted.flatMap_markTransfer (htransfer b.kind) h.body).trans
    (Lifted.flatMap_mark hmarker ∅ u.body.insts)

/-- Classification keeps the numbers in the code. -/
theorem Classified.constants_eq {u : Lifted} {b : Block} (h : Classified u b) :
    b.body.constants = u.body.constants := by
  unfold Body.constants
  rw [List.filterMap_flatMap, List.filterMap_flatMap]
  refine h.flatMap_eq (fun _ => rfl) ?_
  intro kind target
  unfold Lifted.transferMarker
  split
  · rfl
  · cases target <;> rfl

/-- Classification keeps the definitions. -/
theorem Classified.definitions_eq {u : Lifted} {b : Block} (h : Classified u b) :
    definitions b.body.insts = definitions u.body.insts := by
  unfold definitions
  rw [List.filterMap_eq_flatMap_toList, List.filterMap_eq_flatMap_toList]
  refine h.flatMap_eq (fun _ => rfl) ?_
  intro kind target
  unfold Lifted.transferMarker
  split <;> rfl

theorem Halves.sameEnd {b first second : Block} {at_ : Addr} (hs : b.Halves at_ first second)
    (h : b.Sound) : Body.SameEnd b.body second.body :=
  ⟨hs.branchTarget?_second h, fun _ ht => hs.definition?_second h ht⟩

/-- The block goes on right behind itself. -/
structure Front (b : Block) : Prop where
  kind : b.kind = .fallthrough
  branch : ∃ limit, b.body.branchTarget? = some (.pc limit) ∧ b.stop = limit.toNat

/-- The block ends where and as another does. -/
structure Rear (whole b : Block) : Prop where
  kind : b.kind = whole.kind
  stop : b.stop = whole.stop
  sameEnd : Body.SameEnd whole.body b.body

/-- A front part, and a part that ends as the whole does, fall into such parts. -/
theorem Rear.splitStable {whole : Block} :
    Store.SplitStable (fun _ => True) fun b => b.Sound ∧ (b.Front ∨ Rear whole b) := by
  rintro b at_ first second ⟨hb, hcases⟩ - hv
  obtain ⟨hsound1, hsound2⟩ := Sound.splitStable hb trivial hv
  refine ⟨⟨hsound1, Or.inl ⟨hv.kind_first, at_, hv.branchTarget?_first hb, ?_⟩⟩, hsound2, ?_⟩
  · show first.address.toNat + first.size.toNat = _
    rw [hv.address_first, hv.stop_first]
  · have hstop : second.stop = b.stop := by
      show second.address.toNat + second.size.toNat = _
      rw [hv.address_second, hv.stop_second]
      rfl
    have hend := hv.sameEnd hb
    refine hcases.imp (fun hfront => ?_) fun hrear => ?_
    · obtain ⟨limit, hbranch, hlimit⟩ := hfront.branch
      exact ⟨hv.kind_second.trans hfront.kind, limit, hend.branch.trans hbranch,
        hstop.trans hlimit⟩
    · exact ⟨hv.kind_second.trans hrear.kind, hstop.trans hrear.stop, hrear.sameEnd.trans hend⟩

/-- A block that is made of a unit is a front part, or it ends as the whole does. -/
theorem From.cases {u : Lifted} {b : Block} (h : From u b) :
    b.Front ∨ ∃ whole, classify u = .ok whole ∧ Rear whole b := by
  obtain ⟨whole, hwhole, hpart⟩ := h
  have hsound := Sound.of_classified (classified_of_classify hwhole)
  have hrear : Rear whole whole := ⟨rfl, rfl, Body.SameEnd.refl _⟩
  refine (hpart.inherits Rear.splitStable ⟨hsound, Or.inr hrear⟩).2.imp_right fun h => ?_
  exact ⟨whole, hwhole, h⟩

/-- Units that neither call nor return are only marked. -/
theorem Classified.body_eq {u : Lifted} {b : Block} (h : Classified u b)
    (hcall : b.kind.isCall = false) (hret : b.kind ≠ .ret) : b.body = u.marked := by
  rcases Lifted.markTransfer_cases h.body with ⟨-, -, hbody⟩ | ⟨hkind, -⟩
  · exact hbody
  · rcases hkind with hkind | hkind
    · rw [hkind] at hcall
      cases hcall
    · exact absurd hkind hret

theorem Classified.sameEnd {u : Lifted} {b : Block} (h : Classified u b)
    (hcall : b.kind.isCall = false) (hret : b.kind ≠ .ret) : Body.SameEnd u.body b.body := by
  rw [h.body_eq hcall hret]
  exact u.sameEnd_marked

theorem Classified.kind_of_not_call {u : Lifted} {b : Block} (h : Classified u b)
    (hcall : u.kind.isCall = false) : b.kind = u.kind := by
  rw [h.kind, if_neg]
  rintro ⟨hk, -⟩
  rw [hk] at hcall
  cases hcall

/-- Only units that call are made into calls. -/
theorem From.isCall_eq_false {u : Lifted} {b : Block} (h : From u b)
    (hcall : u.kind.isCall = false) :
    b.kind.isCall = false := by
  rcases h.cases with hfront | ⟨whole, hwhole, hrear⟩
  · rw [hfront.kind]
    rfl
  · rw [hrear.kind, (classified_of_classify hwhole).kind_of_not_call hcall]
    exact hcall

/-- The contract of a unit that is no call holds of every block that is made of it. -/
theorem From.transfers {u : Lifted} {b : Block} (h : From u b)
    (hcall : u.kind.isCall = false) (hu : u.body.Transfers u.kind) : b.body.Transfers b.kind := by
  rcases h.cases with hfront | ⟨whole, hwhole, hrear⟩
  · obtain ⟨limit, hlimit, -⟩ := hfront.branch
    rw [hfront.kind]
    exact ⟨limit, hlimit⟩
  · have hc := classified_of_classify hwhole
    have hkind : whole.kind = u.kind := hc.kind_of_not_call hcall
    rw [hrear.kind, hkind]
    by_cases hret : u.kind = .ret
    · rw [hret]
      trivial
    · have hend := hc.sameEnd (hkind ▸ hcall) (hkind ▸ hret)
      exact (hend.trans hrear.sameEnd).transfers hu

/-- Every block that is made of a call goes on right behind itself: it falls through to
there, or it is the call. -/
theorem From.onward {u : Lifted} {b : Block} (h : From u b) (hcall : u.kind.isCall = true) :
    ∃ limit : Addr, b.stop = limit.toNat ∧ (b.kind.isCall = true ∨
      (b.kind = .fallthrough ∧ b.body.staticTargets = [limit])) := by
  rcases h.cases with hfront | ⟨whole, hwhole, hrear⟩
  · obtain ⟨limit, hbranch, hlimit⟩ := hfront.branch
    exact ⟨limit, hlimit, Or.inr ⟨hfront.kind, Body.staticTargets_of_pc hbranch⟩⟩
  · have hc := classified_of_classify hwhole
    have hstop : b.stop = (u.address + u.size).toNat := by
      rw [hrear.stop, toNat_add_of_fits hc.fits, stop, hc.address, hc.size]
    refine ⟨u.address + u.size, hstop, ?_⟩
    rw [hrear.kind, hrear.sameEnd.staticTargets]
    by_cases hnext : u.kind = .call ∧ u.marked.staticTargets = [u.address + u.size]
    · have hkind : whole.kind = .fallthrough := hc.kind.trans (if_pos hnext)
      have hend := hc.sameEnd (by rw [hkind]; rfl) (by rw [hkind]; nofun)
      refine Or.inr ⟨hkind, ?_⟩
      rw [hend.staticTargets, ← u.sameEnd_marked.staticTargets]
      exact hnext.2
    · rw [hc.kind, if_neg hnext]
      exact Or.inl hcall

end Block

end FlowRecovery
