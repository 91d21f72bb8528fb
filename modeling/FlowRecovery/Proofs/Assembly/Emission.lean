/-
Emitting blocks.

What emission does is said once for the end of a block (`Ending`), once for a block
(`emit_eq_ok`) and then for a whole list of blocks (`Emission`), by induction over the
list.  Between two blocks only two things are handed on: the first temporary that is
free, which grows, and the blocks through which control leaves, to which new ones are
added at the end (`Grows`).

* `ending_eq_ok` — the ways in which a block can end;
* `exists_ending`, `ending_of_lacksTarget` — a block can be ended exactly if its kind
  finds the targets it asks for;
* `emission_emit`, `emission_emitAll` — the code that is emitted has the labels of its
  blocks, ends every block with its only terminator, goes only to members and to the
  blocks through which control leaves, and defines every temporary once.
-/
import FlowRecovery.Proofs.Assembly.Labels
import FlowRecovery.Proofs.Assembly.Renumbering
import FlowRecovery.Proofs.Body.Cut
import Mathlib.Algebra.GroupWithZero.Nat

namespace FlowRecovery

namespace Block

/-- Whether the block is ended with a choice between two labels. -/
def chooses (b : Block) : Bool :=
  match b.kind with
  | .condJump => true
  | .repeatedOp => true
  | .condJumpIndirect => true
  | _ => false

/-- How many temporaries the block takes up in a function. -/
def demand (b : Block) : Nat := b.body.nextTemp.toNat + b.chooses.toNat

/-- Whether the body of the block lacks a target that its kind asks for. -/
def lacksTarget (b : Block) : Bool :=
  match b.kind with
  | .jump => b.body.staticTargets.isEmpty
  | .condJump => b.body.staticTargets.length != 2
  | .repeatedOp => b.body.staticTargets.length != 2
  | .condJumpIndirect => b.body.staticTargets.isEmpty
  | .jumpIndirect => b.body.branchTarget?.isNone
  | _ => false

/-- Whether no code for the block can be found: it neither halts nor has its targets. -/
def stuck (b : Block) : Bool := !b.halts && b.lacksTarget

/-- Control goes on from the block at the given address. -/
def Onward (b : Block) (target : Addr) : Prop :=
  ((b.kind = .fallthrough ∨ b.kind = .jump) ∧ b.body.staticTargets.head? = some target) ∨
    ((b.kind.isCall = true ∨ (b.kind = .fallthrough ∧ b.body.staticTargets = [])) ∧
      b.stop = target.toNat)

end Block

/-- A block through which control leaves from a block of the function that starts at
`source`: for a known target, or for the target of the raw branch. -/
inductive Departure (source : Addr) (branch : Option Operand) : CodeBlock → Prop
  | known (target : Addr) :
      Departure source branch { label := exitLabel source target, insts := leave (.pc target) }
  | computed {target : Operand} (h : branch = some target) :
      Departure source branch { label := indirectLabel source, insts := leave target }

namespace Assembly

/-! ### Blocks through which control leaves -/

/-- The labels of the blocks through which control leaves. -/
def exitLabels (s : Assembly) : List String := s.exits.map (·.label)

/-- Blocks with the given property are added through which control leaves, and labels
stay distinct. -/
structure Grows (New : CodeBlock → Prop) (s s' : Assembly) : Prop where
  added : ∃ new, s'.exits = s.exits ++ new ∧ ∀ e ∈ new, New e
  nodup : s.exitLabels.Nodup → s'.exitLabels.Nodup

namespace Grows

variable {New New' : CodeBlock → Prop} {s s' s'' : Assembly}

theorem of_exits_eq (h : s'.exits = s.exits) : Grows New s s' :=
  ⟨⟨[], by rw [h, List.append_nil], fun _ he => absurd he List.not_mem_nil⟩,
    fun hn => by rw [exitLabels, h]; exact hn⟩

theorem mono (h : Grows New s s') (himp : ∀ e, New e → New' e) : Grows New' s s' := by
  obtain ⟨new, hnew, hall⟩ := h.added
  exact ⟨⟨new, hnew, fun e he => himp e (hall e he)⟩, h.nodup⟩

theorem trans (h : Grows New s s') (h' : Grows New s' s'') : Grows New s s'' := by
  obtain ⟨new, hnew, hall⟩ := h.added
  obtain ⟨new', hnew', hall'⟩ := h'.added
  refine ⟨⟨new ++ new', by rw [hnew', hnew, List.append_assoc], fun e he => ?_⟩,
    fun hn => h'.nodup (h.nodup hn)⟩
  exact (List.mem_append.mp he).elim (hall e) (hall' e)

theorem mem_exitLabels (h : Grows New s s') {label : String} (hl : label ∈ s.exitLabels) :
    label ∈ s'.exitLabels := by
  obtain ⟨new, hnew, -⟩ := h.added
  rw [exitLabels, hnew, List.map_append]
  exact List.mem_append_left _ hl

/-- What is found before is found after. -/
theorem find?_eq (h : Grows New s s') {label : String} {e : CodeBlock}
    (he : s.exits.find? (·.label == label) = some e) :
    s'.exits.find? (·.label == label) = some e := by
  obtain ⟨new, hnew, -⟩ := h.added
  rw [hnew, List.find?_append, he]
  rfl

end Grows

section Exits

variable (s : Assembly) (label : String) (target : Operand)

@[simp] theorem nextTemp_exitVia : (s.exitVia label target).nextTemp = s.nextTemp := by
  unfold exitVia
  split <;> rfl

theorem mem_exitLabels_exitVia : label ∈ (s.exitVia label target).exitLabels := by
  unfold exitVia
  split
  · next h =>
    obtain ⟨e, he, hlabel⟩ := List.any_eq_true.mp h
    exact List.mem_map.mpr ⟨e, he, by simpa using hlabel⟩
  · rw [exitLabels, List.map_append]
    exact List.mem_append_right _ List.mem_cons_self

theorem grows_exitVia :
    Grows (· = { label, insts := leave target }) s (s.exitVia label target) := by
  unfold exitVia
  split
  · exact Grows.of_exits_eq rfl
  · next h =>
    refine ⟨⟨_, rfl, fun e he => List.mem_singleton.mp he⟩, fun hn => ?_⟩
    rw [exitLabels, List.map_append]
    refine List.nodup_append.mpr ⟨hn, List.nodup_singleton _, ?_⟩
    rintro l hl m hm rfl
    obtain ⟨e, he, rfl⟩ := List.mem_map.mp hl
    rw [List.map_singleton, List.mem_singleton] at hm
    exact h (List.any_eq_true.mpr ⟨e, he, by simp [hm]⟩)

end Exits

section Arms

variable (members : AddrSet) (source target : Addr) (s : Assembly)

@[simp] theorem nextTemp_arm : (arm members source target s).2.nextTemp = s.nextTemp := by
  unfold arm
  split
  · rfl
  · exact nextTemp_exitVia s _ _

theorem grows_arm (branch : Option Operand) :
    Grows (Departure source branch) s (arm members source target s).2 := by
  unfold arm
  split
  · exact Grows.of_exits_eq rfl
  · exact (grows_exitVia s _ _).mono fun e he => he ▸ Departure.known target

/-- An arm is the label of a member, or of a block through which control leaves. -/
theorem arm_cases :
    (target ∈ members ∧ (arm members source target s).1 = blockLabel target) ∨
      (target ∉ members ∧ (arm members source target s).1 = exitLabel source target ∧
        exitLabel source target ∈ (arm members source target s).2.exitLabels) := by
  unfold arm
  split
  · next h => exact Or.inl ⟨h, rfl⟩
  · next h => exact Or.inr ⟨h, rfl, mem_exitLabels_exitVia s _ _⟩

end Arms

/-! ### The end of a block -/

theorem fresh_eq_ok {ε : Type} {s s' : Assembly} {t : Temp} :
    (s.fresh : Checked ε (Temp × Assembly)) = .ok (t, s') ↔
      t = s.nextTemp ∧ s.nextTemp.toNat + 1 = s'.nextTemp.toNat ∧ s'.exits = s.exits := by
  unfold fresh
  constructor
  · intro h
    obtain ⟨next, hnext, h⟩ := Checked.bind_eq_ok.mp h
    cases h
    exact ⟨rfl, checkedAdd32_eq_ok.mp hnext, rfl⟩
  · rintro ⟨rfl, hnext, hexits⟩
    refine Checked.bind_eq_ok.mpr ⟨s'.nextTemp, checkedAdd32_eq_ok.mpr hnext, ?_⟩
    rw [← hexits]
    rfl

/-- The ways in which a block of the function can end, where `branch` is the target of
its raw branch. -/
inductive Ending (members : AddrSet) (b : Block) (branch : Option Operand) (s : Assembly) :
    List Inst → Assembly → Prop
  | onward {target : Addr} (h : b.Onward target) :
      Ending members b branch s (transfer members target) s
  | depart {target : Operand} (hk : b.kind = .jumpIndirect) (hb : branch = some target) :
      Ending members b branch s (leave target) s
  | ret (hk : b.kind = .ret) : Ending members b branch s [.ret] s
  | between {taken other : Addr} {target : Operand} {s' : Assembly}
      (hk : b.kind = .condJump ∨ b.kind = .repeatedOp)
      (ht : b.body.staticTargets = [taken, other]) (hb : branch = some target)
      (hnext : s.nextTemp.toNat + 1 = s'.nextTemp.toNat) (hexits : s'.exits = s.exits) :
      Ending members b branch s
        (choice target taken s.nextTemp (arm members b.address taken s').1
          (arm members b.address other (arm members b.address taken s').2).1)
        (arm members b.address other (arm members b.address taken s').2).2
  | known {known : Addr} {rest : List Addr} {target : Operand} {s' : Assembly}
      (hk : b.kind = .condJumpIndirect) (ht : b.body.staticTargets = known :: rest)
      (hb : branch = some target) (hnext : s.nextTemp.toNat + 1 = s'.nextTemp.toNat)
      (hexits : s'.exits = s.exits) :
      Ending members b branch s
        (choice target known s.nextTemp (arm members b.address known s').1
          (indirectLabel b.address))
        ((arm members b.address known s').2.exitVia (indirectLabel b.address) target)

section Endings

variable {entry : Addr} {members : AddrSet} {b : Block} {branch : Option Operand}
  {s s' : Assembly} {final : List Inst}

/-- What ends a block is one of the endings. -/
theorem ending_eq_ok (h : ending entry members b branch s = .ok (final, s')) :
    Ending members b branch s final s' := by
  unfold ending at h
  split at h
  case h_1 hk ht =>
    cases h
    exact Ending.onward (Or.inl ⟨Or.inl hk, by rw [ht]; rfl⟩)
  case h_2 hk ht =>
    obtain ⟨limit, hlimit, h⟩ := Checked.bind_eq_ok.mp h
    cases h
    exact Ending.onward (Or.inr ⟨Or.inr ⟨hk, ht⟩, Block.limit_eq_ok.mp hlimit⟩)
  case h_3 hk ht =>
    cases h
    exact Ending.onward (Or.inl ⟨Or.inr hk, by rw [ht]; rfl⟩)
  case h_4 hk ht =>
    obtain ⟨⟨cond, s1⟩, hfresh, h⟩ := Checked.bind_eq_ok.mp h
    obtain ⟨rfl, hnext, hexits⟩ := fresh_eq_ok.mp hfresh
    cases h
    exact Ending.between (Or.inl hk) ht rfl hnext hexits
  case h_5 hk ht =>
    obtain ⟨⟨cond, s1⟩, hfresh, h⟩ := Checked.bind_eq_ok.mp h
    obtain ⟨rfl, hnext, hexits⟩ := fresh_eq_ok.mp hfresh
    cases h
    exact Ending.between (Or.inr hk) ht rfl hnext hexits
  case h_6 hk ht =>
    obtain ⟨⟨cond, s1⟩, hfresh, h⟩ := Checked.bind_eq_ok.mp h
    obtain ⟨rfl, hnext, hexits⟩ := fresh_eq_ok.mp hfresh
    cases h
    exact Ending.known hk ht rfl hnext hexits
  case h_7 hk =>
    cases h
    exact Ending.depart hk rfl
  case h_8 hk =>
    obtain ⟨limit, hlimit, h⟩ := Checked.bind_eq_ok.mp h
    cases h
    exact Ending.onward (Or.inr ⟨Or.inl (by rw [hk]; rfl), Block.limit_eq_ok.mp hlimit⟩)
  case h_9 hk =>
    obtain ⟨limit, hlimit, h⟩ := Checked.bind_eq_ok.mp h
    cases h
    exact Ending.onward (Or.inr ⟨Or.inl (by rw [hk]; rfl), Block.limit_eq_ok.mp hlimit⟩)
  case h_10 hk =>
    cases h
    exact Ending.ret hk
  case h_11 => exact absurd h Checked.refuse_ne_ok

/-- With room for a temporary, a block that lacks no target can be ended. -/
theorem exists_ending (entry : Addr) (members : AddrSet) (s : Assembly) (hsound : b.Sound)
    (hlacks : b.lacksTarget = false)
    (hbranch : branch.isSome = b.body.branchTarget?.isSome)
    (hroom : s.nextTemp.toNat + b.chooses.toNat < 0x100000000) :
    ∃ r, ending entry members b branch s = .ok r := by
  have hlimit : (b.limit : Checked AssembleError Addr) = .ok (b.address + b.size) :=
    Block.limit_eq_ok.mpr (toNat_add_of_fits hsound.fits).symm
  have hfresh : b.chooses = true → (s.fresh : Checked AssembleError (Temp × Assembly)) =
      .ok (s.nextTemp, { s with nextTemp := s.nextTemp + 1 }) := by
    intro hc
    rw [hc] at hroom
    refine fresh_eq_ok.mpr ⟨rfl, ?_, rfl⟩
    rw [UInt32.toNat_add]
    exact (Nat.mod_eq_of_lt hroom).symm
  have hsome : b.body.staticTargets ≠ [] → ∃ target, branch = some target := by
    intro hne
    rw [← Option.isSome_iff_exists, hbranch]
    by_contra hnone
    rw [Option.not_isSome_iff_eq_none] at hnone
    exact hne (by rw [Body.staticTargets, hnone])
  unfold Block.lacksTarget at hlacks
  unfold Block.chooses at hfresh
  cases hk : b.kind <;> simp only [hk, forall_const] at hlacks hfresh
  case fallthrough =>
    cases ht : b.body.staticTargets with
    | nil => exact ⟨_, by simp only [ending, hk, ht, hlimit]; rfl⟩
    | cons target rest => exact ⟨_, by simp only [ending, hk, ht]; rfl⟩
  case jump =>
    cases ht : b.body.staticTargets with
    | nil => simp [ht] at hlacks
    | cons target rest => exact ⟨_, by simp only [ending, hk, ht]; rfl⟩
  case jumpIndirect =>
    obtain ⟨target, rfl⟩ : ∃ target, branch = some target := by
      rw [← Option.isSome_iff_exists, hbranch]
      simpa using hlacks
    exact ⟨_, by simp only [ending, hk]; rfl⟩
  case condJumpIndirect =>
    cases ht : b.body.staticTargets with
    | nil => simp [ht] at hlacks
    | cons known rest =>
      obtain ⟨target, rfl⟩ := hsome (by rw [ht]; exact List.cons_ne_nil _ _)
      exact ⟨_, by simp only [ending, hk, ht, hfresh]; rfl⟩
  case ret => exact ⟨_, by simp only [ending, hk]; rfl⟩
  case call => exact ⟨_, by simp only [ending, hk, hlimit]; rfl⟩
  case callIndirect => exact ⟨_, by simp only [ending, hk, hlimit]; rfl⟩
  -- The two kinds with exactly two targets.
  all_goals
    obtain ⟨taken, other, ht⟩ := List.length_eq_two.mp (by simpa using hlacks)
    obtain ⟨target, rfl⟩ := hsome (by rw [ht]; exact List.cons_ne_nil _ _)
    exact ⟨_, by simp only [ending, ending.conditional, hk, ht, hfresh]; rfl⟩

theorem ending_of_lacksTarget (hlacks : b.lacksTarget = true)
    (hbranch : branch.isSome = b.body.branchTarget?.isSome) :
    ending entry members b branch s = Checked.refuse (.missingTarget entry b.address) := by
  unfold Block.lacksTarget at hlacks
  -- Unless there are exactly two targets, neither kind of choice is made.
  have htwo : b.body.staticTargets.length ≠ 2 → b.kind = .condJump ∨ b.kind = .repeatedOp →
      ending entry members b branch s = Checked.refuse (.missingTarget entry b.address) := by
    intro hlen hk
    match ht : b.body.staticTargets with
    | [] => rcases hk with hk | hk <;> simp only [ending, hk, ht]
    | [_] => rcases hk with hk | hk <;> simp only [ending, hk, ht]
    | [_, _] => exact absurd (by rw [ht]; rfl) hlen
    | _ :: _ :: _ :: _ => rcases hk with hk | hk <;> simp only [ending, hk, ht]
  cases hk : b.kind <;> simp only [hk, Bool.false_eq_true] at hlacks
  case jump =>
    rw [List.isEmpty_iff] at hlacks
    simp only [ending, hk, hlacks]
  case condJump => exact htwo (by simpa using hlacks) (Or.inl hk)
  case repeatedOp => exact htwo (by simpa using hlacks) (Or.inr hk)
  case condJumpIndirect =>
    rw [List.isEmpty_iff] at hlacks
    simp only [ending, hk, hlacks]
  case jumpIndirect =>
    rw [Option.isNone_iff_eq_none] at hlacks
    rw [hlacks, Option.isSome_none, Option.isSome_eq_false_iff,
      Option.isNone_iff_eq_none] at hbranch
    simp only [ending, hk, hbranch]

end Endings

/-- What an ending is for the function: it ends once, goes to labels that the function
has, and takes up the temporaries between the two states. -/
structure Closing (members : AddrSet) (source : Addr) (branch : Option Operand) (s : Assembly)
    (final : List Inst) (s' : Assembly) : Prop where
  ending : EndsOnce final
  noRaw : ∀ i ∈ final, i.isRaw = false
  targets : ∀ i ∈ final, ∀ l ∈ i.targets, (∃ a ∈ members, l = blockLabel a) ∨ l ∈ s'.exitLabels
  le : s.nextTemp.toNat ≤ s'.nextTemp.toNat
  range : ∀ t ∈ definitions final, s.nextTemp.toNat ≤ t.toNat ∧ t.toNat < s'.nextTemp.toNat
  nodup : (definitions final).Nodup
  reads : ∀ i ∈ final, ∀ t ∈ i.uses, t ∈ definitions final ∨ ∃ o ∈ branch, o.temp? = some t
  grows : Grows (Departure source branch) s s'

namespace Closing

variable {members : AddrSet} {source : Addr} {branch : Option Operand} {s s' : Assembly}

theorem ret : Closing members source branch s [.ret] s where
  ending := ⟨[], .ret, rfl, rfl, fun _ h => absurd h List.not_mem_nil⟩
  noRaw := by simp [Inst.isRaw, Inst.branch?]
  targets := by simp [Inst.targets]
  le := Nat.le_refl _
  range := by simp [Inst.def?, definitions]
  nodup := List.nodup_nil
  reads := by simp [Inst.uses, Inst.operands]
  grows := Grows.of_exits_eq rfl

theorem leave {target : Operand} (h : ∀ t, target.temp? = some t → branch = some target) :
    Closing members source branch s (leave target) s where
  ending := ⟨[.jumpMarker target], .ret, rfl, rfl, by simp [Inst.isTerminator]⟩
  noRaw := by simp [FlowRecovery.leave, Inst.isRaw, Inst.branch?]
  targets := by simp [FlowRecovery.leave, Inst.targets]
  le := Nat.le_refl _
  range := by simp [FlowRecovery.leave, Inst.def?, definitions]
  nodup := List.nodup_nil
  reads := by
    intro i hi t ht
    simp only [FlowRecovery.leave, List.mem_cons, List.not_mem_nil, or_false] at hi
    rcases hi with rfl | rfl
    · have htarget : target.temp? = some t := by simpa [Inst.uses, Inst.operands] using ht
      exact Or.inr ⟨target, h t htarget, htarget⟩
    · cases ht
  grows := Grows.of_exits_eq rfl

theorem transfer (target : Addr) :
    Closing members source branch s (transfer members target) s := by
  unfold FlowRecovery.transfer
  split
  · next hmem =>
    exact
      { ending := ⟨[], _, rfl, rfl, fun _ h => absurd h List.not_mem_nil⟩
        noRaw := by simp [Inst.isRaw, Inst.branch?]
        targets := by
          simp only [List.mem_singleton, forall_eq, Inst.targets]
          exact Or.inl ⟨target, hmem, rfl⟩
        le := Nat.le_refl _
        range := by simp [Inst.def?, definitions]
        nodup := List.nodup_nil
        reads := by simp [Inst.uses, Inst.operands]
        grows := Grows.of_exits_eq rfl }
  · refine Closing.leave fun t ht => ?_
    cases ht

theorem choice {target : Operand} {known : Addr} {thenLabel elseLabel : String}
    (hb : branch = some target) (hnext : s.nextTemp.toNat + 1 = s'.nextTemp.toNat)
    (hgrows : Grows (Departure source branch) s s')
    (hthen : (∃ a ∈ members, thenLabel = blockLabel a) ∨ thenLabel ∈ s'.exitLabels)
    (helse : (∃ a ∈ members, elseLabel = blockLabel a) ∨ elseLabel ∈ s'.exitLabels) :
    Closing members source branch s (choice target known s.nextTemp thenLabel elseLabel) s' where
  ending := ⟨[_], _, rfl, rfl, by simp [Inst.isTerminator]⟩
  noRaw := by simp [Assembly.choice, Inst.isRaw, Inst.branch?]
  targets := by
    simp only [Assembly.choice, List.forall_mem_cons, Inst.targets, List.not_mem_nil,
      false_imp_iff, forall_const, true_and, and_true]
    exact ⟨hthen, helse⟩
  le := by omega
  range := by
    intro t ht
    obtain rfl : t = s.nextTemp := List.mem_singleton.mp ht
    omega
  nodup := List.nodup_singleton s.nextTemp
  reads := by
    intro i hi t ht
    simp only [Assembly.choice, List.mem_cons, List.not_mem_nil, or_false] at hi
    rcases hi with rfl | rfl
    · refine Or.inr ⟨target, hb, ?_⟩
      simpa [Inst.uses, Inst.operands, Operand.temp?] using ht
    · have htemp : t = s.nextTemp := by simpa [Inst.uses, Inst.operands, Operand.temp?] using ht
      exact Or.inl (List.mem_singleton.mpr htemp)
  grows := hgrows

end Closing

/-- Every ending closes a block. -/
theorem Ending.closing {members : AddrSet} {b : Block} {branch : Option Operand}
    {s s' : Assembly} {final : List Inst} (h : Ending members b branch s final s') :
    Closing members b.address branch s final s' := by
  have harm : ∀ (target : Addr) (s1 s2 : Assembly),
      Grows (Departure b.address branch) (arm members b.address target s1).2 s2 →
        (∃ a ∈ members, (arm members b.address target s1).1 = blockLabel a) ∨
          (arm members b.address target s1).1 ∈ s2.exitLabels := by
    intro target s1 s2 hgrows
    rcases arm_cases members b.address target s1 with ⟨hmem, hlabel⟩ | ⟨-, hlabel, hmem⟩
    · exact Or.inl ⟨target, hmem, hlabel⟩
    · exact Or.inr (hlabel ▸ hgrows.mem_exitLabels hmem)
  cases h with
  | onward h => exact Closing.transfer _
  | depart hk hb => exact Closing.leave fun t _ => hb
  | ret hk => exact Closing.ret
  | @between taken other target s1 hk ht hb hnext hexits =>
    have hfirst := grows_arm members b.address taken s1 branch
    have hsecond := grows_arm members b.address other (arm members b.address taken s1).2 branch
    refine Closing.choice hb (by simpa using hnext)
      ((Grows.of_exits_eq hexits).trans (hfirst.trans hsecond)) (harm taken s1 _ hsecond) ?_
    exact harm other _ _ (Grows.of_exits_eq rfl)
  | @known known rest target s1 hk ht hb hnext hexits =>
    have hfirst := grows_arm members b.address known s1 branch
    have hsecond : Grows (Departure b.address branch) (arm members b.address known s1).2
        ((arm members b.address known s1).2.exitVia (indirectLabel b.address) target) :=
      (grows_exitVia _ _ _).mono fun e he => he ▸ Departure.computed hb
    refine Closing.choice hb (by simpa using hnext)
      ((Grows.of_exits_eq hexits).trans (hfirst.trans hsecond)) (harm known s1 _ hsecond) ?_
    exact Or.inr (mem_exitLabels_exitVia _ _ _)

theorem Ending.nextTemp_le {members : AddrSet} {b : Block} {branch : Option Operand}
    {s s' : Assembly} {final : List Inst} (h : Ending members b branch s final s') :
    s'.nextTemp.toNat ≤ s.nextTemp.toNat + b.chooses.toNat := by
  cases h with
  | between hk ht hb hnext hexits =>
    have hc : b.chooses = true := by rcases hk with hk | hk <;> simp [Block.chooses, hk]
    simp [hc, hnext]
  | known hk ht hb hnext hexits =>
    have hc : b.chooses = true := by simp [Block.chooses, hk]
    simp [hc, hnext]
  | _ => exact Nat.le_add_right _ _

/-! ### Blocks -/

/-- The code and the raw branch of renumbered code. -/
theorem dropBranch_renumber {insts inner : List Inst} {target : Option Operand}
    (hinsts : insts = inner ++ Body.rawEnd target) (hinner : ∀ i ∈ inner, i.isInner = true)
    (base : Temp) : dropBranch (renumber base insts) =
      (renumber base inner, target.map (Operand.mapTemp (· + base))) := by
  rw [hinsts, renumber_append, Body.renumber_rawEnd]
  exact dropBranch_rawEnd _ (isInner_renumber hinner)

/-- How a block is ended that may halt. -/
def Closes (entry : Addr) (members : AddrSet) (b : Block) (branch : Option Operand)
    (s : Assembly) (final : List Inst) (s' : Assembly) : Prop :=
  (b.halts = true ∧ final = [.ret] ∧ s' = s) ∨
    (b.halts = false ∧ ending entry members b branch s = .ok (final, s'))

section Blocks

variable {entry : Addr} {members : AddrSet} {b : Block} {s s' last : Assembly} {code : CodeBlock}
  {codes : List CodeBlock} {blocks : List Block}

theorem Closes.closing {branch : Option Operand} {final : List Inst}
    (h : Closes entry members b branch s final s') :
    Closing members b.address branch s final s' := by
  rcases h with ⟨-, rfl, rfl⟩ | ⟨-, h⟩
  · exact Closing.ret
  · exact (ending_eq_ok h).closing

/-- An emitted block is the block's renumbered code, without its raw end, and an ending. -/
theorem emit_eq_ok : emit entry members b s = .ok (code, s') ↔
    ∃ body final, b.body.shift s.nextTemp = (.ok body : Checked AssembleError Body) ∧
      Closes entry members b (dropBranch body.insts).2 { s with nextTemp := body.nextTemp }
        final s' ∧
      code = { label := blockLabel b.address, insts := (dropBranch body.insts).1 ++ final } := by
  unfold emit Closes
  constructor
  · intro h
    obtain ⟨body, hbody, h⟩ := Checked.bind_eq_ok.mp h
    refine ⟨body, ?_⟩
    by_cases hhalts : b.halts = true
    · simp only [hhalts, if_true] at h
      cases h
      exact ⟨[.ret], hbody, Or.inl ⟨hhalts, rfl, rfl⟩, rfl⟩
    · rw [Bool.not_eq_true] at hhalts
      simp only [hhalts, Bool.false_eq_true, if_false] at h
      obtain ⟨⟨final, s1⟩, hending, h⟩ := Checked.bind_eq_ok.mp h
      cases h
      exact ⟨final, hbody, Or.inr ⟨hhalts, hending⟩, rfl⟩
  · rintro ⟨body, final, hbody, hclose, rfl⟩
    refine Checked.bind_eq_ok.mpr ⟨body, hbody, ?_⟩
    rcases hclose with ⟨hhalts, rfl, rfl⟩ | ⟨hhalts, hending⟩
    · simp only [hhalts, if_true]
      rfl
    · simp only [hhalts, Bool.false_eq_true, if_false, hending]
      rfl

/-- What emitting a sound block yields: `base` is the first temporary that was free. -/
theorem exists_of_emit (hb : b.Sound) (h : emit entry members b s = .ok (code, s')) :
    ∃ inner target next final, b.body.insts = inner ++ Body.rawEnd target ∧
      (∀ i ∈ inner, i.isInner = true) ∧ b.body.branchTarget? = target ∧
      b.body.nextTemp.toNat + s.nextTemp.toNat = next.toNat ∧
      Closes entry members b (target.map (Operand.mapTemp (· + s.nextTemp)))
        { s with nextTemp := next } final s' ∧
      code = { label := blockLabel b.address, insts := renumber s.nextTemp inner ++ final } := by
  obtain ⟨body, final, hbody, hcloses, rfl⟩ := emit_eq_ok.mp h
  obtain ⟨inner, target, hinsts, hinner⟩ := hb.lawful.ending
  obtain ⟨hnext, hrenumber⟩ := hb.lawful.shift_eq_ok.mp hbody
  have hdrop := dropBranch_renumber hinsts hinner s.nextTemp
  rw [← hrenumber] at hdrop
  rw [hdrop] at hcloses ⊢
  exact ⟨inner, target, body.nextTemp, final, hinsts, hinner,
    Body.branchTarget?_of_rawEnd hinsts hinner, hnext, hcloses, rfl⟩

/-- The two ways in which emitting a sound block can go, if there is room for its
temporaries. -/
theorem emit_of_room (entry : Addr) (members : AddrSet) (s : Assembly) (hb : b.Sound)
    (hroom : s.nextTemp.toNat + b.demand < 0x100000000) :
    (b.stuck = true → emit entry members b s =
      Checked.refuse (.missingTarget entry b.address)) ∧
    (b.stuck = false → ∃ code s', emit entry members b s = .ok (code, s') ∧
      s'.nextTemp.toNat ≤ s.nextTemp.toNat + b.demand) := by
  have hdemand : b.demand = b.body.nextTemp.toNat + b.chooses.toNat := rfl
  obtain ⟨inner, target, hinsts, hinner⟩ := hb.lawful.ending
  have hshift : (b.body.shift s.nextTemp : Checked AssembleError Body) =
      .ok (b.body.renumbered s.nextTemp) := hb.lawful.shift_of_room (by omega)
  have hnext : (b.body.renumbered s.nextTemp).nextTemp.toNat =
      b.body.nextTemp.toNat + s.nextTemp.toNat := Body.toNat_nextTemp_renumbered (by omega)
  have hdrop : dropBranch (b.body.renumbered s.nextTemp).insts =
      (renumber s.nextTemp inner, target.map (Operand.mapTemp (· + s.nextTemp))) :=
    dropBranch_renumber hinsts hinner s.nextTemp
  have hbranch : (target.map (Operand.mapTemp (· + s.nextTemp))).isSome =
      b.body.branchTarget?.isSome := by
    rw [Option.isSome_map, Body.branchTarget?_of_rawEnd hinsts hinner]
  constructor
  · intro hstuck
    obtain ⟨hhalts, hlacks⟩ : b.halts = false ∧ b.lacksTarget = true := by
      simpa [Block.stuck] using hstuck
    rw [emit, hshift]
    simp only [bind, Except.bind, hdrop, hhalts, Bool.false_eq_true, if_false,
      ending_of_lacksTarget hlacks hbranch]
    rfl
  · intro hstuck
    have hcloses : ∃ final s', Closes entry members b
        (target.map (Operand.mapTemp (· + s.nextTemp)))
        { s with nextTemp := (b.body.renumbered s.nextTemp).nextTemp } final s' := by
      by_cases hhalts : b.halts = true
      · exact ⟨_, _, Or.inl ⟨hhalts, rfl, rfl⟩⟩
      · rw [Bool.not_eq_true] at hhalts
        have hlacks : b.lacksTarget = false := by simpa [Block.stuck, hhalts] using hstuck
        obtain ⟨⟨final, s'⟩, hending⟩ := exists_ending entry members
          { s with nextTemp := (b.body.renumbered s.nextTemp).nextTemp } hb hlacks hbranch
          (by show (b.body.renumbered s.nextTemp).nextTemp.toNat + _ < _; omega)
        exact ⟨final, s', Or.inr ⟨hhalts, hending⟩⟩
    obtain ⟨final, s', hcloses⟩ := hcloses
    refine ⟨_, s', emit_eq_ok.mpr ⟨_, final, hshift, by rw [hdrop]; exact hcloses, rfl⟩, ?_⟩
    rcases hcloses with ⟨-, -, rfl⟩ | ⟨-, hending⟩
    · show (b.body.renumbered s.nextTemp).nextTemp.toNat ≤ _
      omega
    · have hle : s'.nextTemp.toNat ≤
          (b.body.renumbered s.nextTemp).nextTemp.toNat + b.chooses.toNat :=
        (ending_eq_ok hending).nextTemp_le
      omega

/-- The sum of what the blocks take up. -/
def demandOf (blocks : List Block) : Nat := (blocks.map Block.demand).sum

/-- With room for all temporaries, emission fails exactly at the first block for which
no code can be found. -/
theorem emitAll_of_room (entry : Addr) (members : AddrSet) (s : Assembly)
    (hb : ∀ b ∈ blocks, b.Sound)
    (hroom : s.nextTemp.toNat + demandOf blocks < 0x100000000) :
    (∀ b, blocks.find? Block.stuck = some b →
      emitAll entry members s blocks = Checked.refuse (.missingTarget entry b.address)) ∧
    (blocks.find? Block.stuck = none → ∃ r, emitAll entry members s blocks = .ok r) := by
  induction blocks generalizing s with
  | nil => exact ⟨nofun, fun _ => ⟨_, rfl⟩⟩
  | cons b blocks ih =>
    have hsum : demandOf (b :: blocks) = b.demand + demandOf blocks := List.sum_cons
    obtain ⟨hb, hblocks⟩ := List.forall_mem_cons.mp hb
    obtain ⟨hfail, hok⟩ := emit_of_room entry members s hb (by omega)
    cases hstuck : b.stuck with
    | true =>
      rw [List.find?_cons_of_pos hstuck]
      refine ⟨fun c hc => ?_, nofun⟩
      cases hc
      rw [emitAll, hfail hstuck]
      rfl
    | false =>
      rw [List.find?_cons_of_neg (by rw [hstuck]; exact Bool.false_ne_true)]
      obtain ⟨code, s', hemit, hle⟩ := hok hstuck
      obtain ⟨hfail', hok'⟩ := ih s' hblocks (by omega)
      refine ⟨fun c hc => ?_, fun hnone => ?_⟩
      · rw [emitAll, hemit]
        show (emitAll entry members s' blocks >>= _) = _
        rw [hfail' c hc]
        rfl
      · obtain ⟨⟨codes, last⟩, hcodes⟩ := hok' hnone
        exact ⟨_, Checked.bind_eq_ok.mpr ⟨_, hemit, Checked.bind_eq_ok.mpr ⟨_, hcodes, rfl⟩⟩⟩

end Blocks

/-- The code of emitted blocks, in order. -/
abbrev codeOf (codes : List CodeBlock) : List Inst := codes.flatMap (·.insts)

/-- A block through which control leaves from one of the blocks; what it reads is
defined in the code that was emitted. -/
def LeavesFrom (blocks : List Block) (codes : List CodeBlock) (e : CodeBlock) : Prop :=
  ∃ b ∈ blocks, ∃ branch, Departure b.address branch e ∧
    ∀ o ∈ branch, ∀ t, o.temp? = some t → t ∈ definitions (codeOf codes)

/-- What emitting blocks leads to, from one state to another. -/
structure Emission (members : AddrSet) (s : Assembly) (blocks : List Block)
    (codes : List CodeBlock) (last : Assembly) : Prop where
  labels : codes.map (·.label) = blocks.map fun b => blockLabel b.address
  ending : ∀ c ∈ codes, EndsOnce c.insts
  noRaw : ∀ i ∈ codeOf codes, i.isRaw = false
  targets : ∀ i ∈ codeOf codes, ∀ l ∈ i.targets,
    (∃ a ∈ members, l = blockLabel a) ∨ l ∈ last.exitLabels
  le : s.nextTemp.toNat ≤ last.nextTemp.toNat
  range : ∀ t ∈ definitions (codeOf codes),
    s.nextTemp.toNat ≤ t.toNat ∧ t.toNat < last.nextTemp.toNat
  nodup : (definitions (codeOf codes)).Nodup
  reads : ∀ i ∈ codeOf codes, ∀ t ∈ i.uses, t ∈ definitions (codeOf codes)
  grows : Grows (LeavesFrom blocks codes) s last

section Emissions

variable {entry : Addr} {members : AddrSet} {b : Block} {s s' last : Assembly} {code : CodeBlock}
  {codes : List CodeBlock} {blocks : List Block}

theorem Emission.nil : Emission members s [] [] s where
  labels := rfl
  ending := fun _ h => absurd h List.not_mem_nil
  noRaw := fun _ h => absurd h List.not_mem_nil
  targets := fun _ h => absurd h List.not_mem_nil
  le := Nat.le_refl _
  range := fun _ h => absurd h List.not_mem_nil
  nodup := List.nodup_nil
  reads := fun _ h => absurd h List.not_mem_nil
  grows := Grows.of_exits_eq rfl

/-- One block and then the others. -/
theorem Emission.cons (h : Emission members s [b] [code] s')
    (h' : Emission members s' blocks codes last) :
    Emission members s (b :: blocks) (code :: codes) last := by
  have hcode : codeOf (code :: codes) = codeOf [code] ++ codeOf codes := by simp
  have hdefs : definitions (codeOf (code :: codes)) =
      definitions (codeOf [code]) ++ definitions (codeOf codes) := by
    rw [hcode, definitions_append]
  have hmem : ∀ t, t ∈ definitions (codeOf (code :: codes)) ↔
      t ∈ definitions (codeOf [code]) ∨ t ∈ definitions (codeOf codes) := by
    intro t
    rw [hdefs, List.mem_append]
  have hle := h.le
  have hle' := h'.le
  refine ⟨?_, ?_, ?_, ?_, by omega, ?_, ?_, ?_, ?_⟩
  · rw [List.map_cons, List.map_cons, h'.labels]
    exact congrArg (· :: _) (List.cons.inj h.labels).1
  · exact List.forall_mem_cons.mpr ⟨h.ending code List.mem_cons_self, h'.ending⟩
  · rw [hcode, List.forall_mem_append]
    exact ⟨h.noRaw, h'.noRaw⟩
  · rw [hcode, List.forall_mem_append]
    refine ⟨fun i hi l hl => ?_, h'.targets⟩
    exact (h.targets i hi l hl).imp_right h'.grows.mem_exitLabels
  · intro t ht
    rcases (hmem t).mp ht with ht | ht
    · have := h.range t ht
      omega
    · have := h'.range t ht
      omega
  · rw [hdefs]
    refine List.nodup_append.mpr ⟨h.nodup, h'.nodup, ?_⟩
    -- The temporaries of the first block lie below those of the others.
    rintro t ht u hu rfl
    have := h.range t ht
    have := h'.range t hu
    omega
  · rw [hcode, List.forall_mem_append, ← hcode]
    refine ⟨fun i hi t ht => (hmem t).mpr (Or.inl (h.reads i hi t ht)), fun i hi t ht => ?_⟩
    exact (hmem t).mpr (Or.inr (h'.reads i hi t ht))
  · refine (h.grows.mono ?_).trans (h'.grows.mono ?_)
    · rintro e ⟨c, hc, branch, hdep, hreads⟩
      rw [List.mem_singleton.mp hc] at hdep
      exact ⟨b, List.mem_cons_self, branch, hdep, fun o ho t ht =>
        (hmem t).mpr (Or.inl (hreads o ho t ht))⟩
    · rintro e ⟨c, hc, branch, hdep, hreads⟩
      exact ⟨c, List.mem_cons_of_mem _ hc, branch, hdep, fun o ho t ht =>
        (hmem t).mpr (Or.inr (hreads o ho t ht))⟩

/-- Straight code whose temporaries lie in a range, each defined once; what it and the
branch behind it read, it defines. -/
structure Straight (base next : Nat) (branch : Option Operand) (code : List Inst) : Prop where
  inner : ∀ i ∈ code, i.isInner = true
  range : ∀ t ∈ definitions code, base ≤ t.toNat ∧ t.toNat < next
  nodup : (definitions code).Nodup
  reads : ∀ i ∈ code, ∀ t ∈ i.uses, t ∈ definitions code
  branch : ∀ o ∈ branch, ∀ t, o.temp? = some t → t ∈ definitions code

theorem straight_renumber {inner : List Inst} {target : Option Operand} {base next : Temp}
    (hb : b.Sound) (hinsts : b.body.insts = inner ++ Body.rawEnd target)
    (hinner : ∀ i ∈ inner, i.isInner = true)
    (hnext : b.body.nextTemp.toNat + base.toNat = next.toNat) :
    Straight base.toNat next.toNat (target.map (Operand.mapTemp (· + base)))
      (renumber base inner) := by
  have hroom := next.toNat_lt
  have hcode : renumber base b.body.insts =
      renumber base inner ++ Body.rawEnd (target.map (Operand.mapTemp (· + base))) := by
    rw [hinsts, renumber_append, Body.renumber_rawEnd]
  -- The raw end defines nothing, so the code defines what the body does.
  have hdefs : definitions (renumber base b.body.insts) = definitions (renumber base inner) := by
    rw [hcode, definitions_append, Body.definitions_rawEnd, List.append_nil]
  have hreads := reads_renumber base hb.lawful.reads
  rw [hdefs, hcode, List.forall_mem_append] at hreads
  refine ⟨isInner_renumber hinner, ?_, hdefs ▸ nodup_renumber hb.lawful.nodup, hreads.1,
    fun o ho t ht => ?_⟩
  · rw [← hdefs, ← hnext]
    exact range_renumber hb.lawful.range (by omega)
  · rw [Option.mem_def.mp ho] at hreads
    exact hreads.2 (.branch o) List.mem_cons_self t (by simp [Inst.uses, Inst.operands, ht])

/-- Straight code and an ending make an emitted block. -/
theorem Straight.emission {branch : Option Operand} {inner final : List Inst} {next : Temp}
    (h : Straight s.nextTemp.toNat next.toNat branch inner)
    (hle : s.nextTemp.toNat ≤ next.toNat)
    (hc : Closing members b.address branch { s with nextTemp := next } final s') :
    Emission members s [b] [{ label := blockLabel b.address, insts := inner ++ final }] s' := by
  have hcode : codeOf [{ label := blockLabel b.address, insts := inner ++ final }] =
      inner ++ final := by simp
  have hnext : next.toNat ≤ s'.nextTemp.toNat := hc.le
  have hterm : ∀ i ∈ inner, i.isTerminator = false := fun i hi =>
    Inst.isTerminator_of_isInner (h.inner i hi)
  have hfinal : ∀ t ∈ definitions final, next.toNat ≤ t.toNat ∧ t.toNat < s'.nextTemp.toNat :=
    hc.range
  refine ⟨rfl, ?_, ?_, ?_, Nat.le_trans hle hnext, ?_, ?_, ?_, ?_⟩
  · rw [List.forall_mem_cons]
    exact ⟨hc.ending.append_left hterm, fun _ h => absurd h List.not_mem_nil⟩
  · rw [hcode, List.forall_mem_append]
    exact ⟨fun i hi => Inst.isRaw_of_isInner (h.inner i hi), hc.noRaw⟩
  · rw [hcode, List.forall_mem_append]
    refine ⟨fun i hi l hl => ?_, hc.targets⟩
    rw [Inst.targets_of_isTerminator (hterm i hi)] at hl
    cases hl
  · rw [hcode, definitions_append, List.forall_mem_append]
    refine ⟨fun t ht => ?_, fun t ht => ?_⟩
    · have := h.range t ht
      omega
    · have := hfinal t ht
      omega
  · rw [hcode, definitions_append]
    refine List.nodup_append.mpr ⟨h.nodup, hc.nodup, ?_⟩
    rintro t ht u hu rfl
    have := h.range t ht
    have := hfinal t hu
    omega
  · rw [hcode, definitions_append, List.forall_mem_append]
    refine ⟨fun i hi t ht => List.mem_append_left _ (h.reads i hi t ht), fun i hi t ht => ?_⟩
    rcases hc.reads i hi t ht with hmem | ⟨o, ho, hot⟩
    · exact List.mem_append_right _ hmem
    · exact List.mem_append_left _ (h.branch o ho t hot)
  · refine Grows.mono ⟨hc.grows.added, hc.grows.nodup⟩ fun e he => ?_
    refine ⟨b, List.mem_cons_self, branch, he, fun o ho t ht => ?_⟩
    rw [hcode, definitions_append]
    exact List.mem_append_left _ (h.branch o ho t ht)

/-- Emitting a sound block. -/
theorem emission_emit (hb : b.Sound) (h : emit entry members b s = .ok (code, s')) :
    Emission members s [b] [code] s' := by
  obtain ⟨inner, target, next, final, hinsts, hinner, -, hnext, hcloses, rfl⟩ :=
    exists_of_emit hb h
  exact (straight_renumber hb hinsts hinner hnext).emission (by omega) hcloses.closing

/-- Emitting sound blocks one after the other. -/
theorem emission_emitAll (hb : ∀ b ∈ blocks, b.Sound)
    (h : emitAll entry members s blocks = .ok (codes, last)) :
    Emission members s blocks codes last := by
  induction blocks generalizing s codes with
  | nil =>
    cases h
    exact Emission.nil
  | cons b blocks ih =>
    obtain ⟨⟨code, s1⟩, hcode, h⟩ := Checked.bind_eq_ok.mp h
    obtain ⟨⟨codes', s2⟩, hcodes, h⟩ := Checked.bind_eq_ok.mp h
    cases h
    obtain ⟨hb, hblocks⟩ := List.forall_mem_cons.mp hb
    exact (emission_emit hb hcode).cons (ih hblocks hcodes)

end Emissions

end Assembly

end FlowRecovery
