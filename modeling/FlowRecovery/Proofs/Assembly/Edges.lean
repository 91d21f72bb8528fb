/-
Where emitted code goes.

The code of a block names labels of three forms: those of members, those of the blocks
through which one arm of a choice leaves the function, and that of the block through
which a computed target does.  Which ones it names is decided by where control goes from
the block (`Block.Goes`) and by the members.

* `mem_targets_emit` — the labels that the code of a block names, exactly;
* `jumpMarker_mem_emit` — the targets for which it leaves the function itself;
* `Serves`, `grows_emitAll_serves` — every block through which control leaves belongs to
  one of the blocks, whose code names it;
* `Func.MadeOf` — what an assembled function is made of.
-/
import FlowRecovery.Proofs.Assembly.Assembled
import FlowRecovery.Proofs.Assembly.Control

namespace FlowRecovery

/-- The labels that the code of the block names. -/
def CodeBlock.targets (c : CodeBlock) : List String := c.insts.flatMap Inst.targets

namespace Block

variable {b : Block} {members : AddrSet}

/-- Control goes from the block to a known address: to a literal target of its raw branch, or
right behind the block. -/
def Goes (b : Block) (target : Addr) : Prop :=
  b.halts = false ∧ (b.Onward target ∨
    ((b.kind = .condJump ∨ b.kind = .repeatedOp) ∧ target ∈ b.body.staticTargets) ∨
    (b.kind = .condJumpIndirect ∧ b.body.staticTargets.head? = some target))

/-- The labels that the code of the block has to name in a function with the given members. -/
inductive Labels (members : AddrSet) (b : Block) : String → Prop
  | inside {t : Addr} (h : b.Goes t) (ht : t ∈ members) : Labels members b (blockLabel t)
  | outside {t : Addr} (h : b.Goes t) (ht : t ∉ members) (hc : b.chooses = true) :
      Labels members b (exitLabel b.address t)
  | computed (hhalts : b.halts = false) (hk : b.kind = .condJumpIndirect) :
      Labels members b (indirectLabel b.address)

theorem Labels.of_blockLabel {a : Addr} (h : b.Labels members (blockLabel a)) :
    b.Goes a ∧ a ∈ members := by
  generalize hl : blockLabel a = l at h
  cases h with
  | inside h ht =>
    obtain rfl := blockLabel_inj.mp hl
    exact ⟨h, ht⟩
  | outside h ht hc => exact absurd hl (blockLabel_ne_exitLabel _ _ _)
  | computed hhalts hk => exact absurd hl (blockLabel_ne_indirectLabel _ _)

theorem Labels.of_exitLabel {a v : Addr} (h : b.Labels members (exitLabel a v)) :
    a = b.address ∧ b.Goes v ∧ v ∉ members := by
  generalize hl : exitLabel a v = l at h
  cases h with
  | inside h ht => exact absurd hl.symm (blockLabel_ne_exitLabel _ _ _)
  | outside h ht hc =>
    obtain ⟨ha, rfl⟩ := exitLabel_inj.mp hl
    exact ⟨ha, h, ht⟩
  | computed hhalts hk => exact absurd hl (exitLabel_ne_indirectLabel _ _ _)

theorem Labels.of_indirectLabel {a : Addr} (h : b.Labels members (indirectLabel a)) :
    a = b.address ∧ b.kind = .condJumpIndirect := by
  generalize hl : indirectLabel a = l at h
  cases h with
  | inside h ht => exact absurd hl.symm (blockLabel_ne_indirectLabel _ _)
  | outside h ht hc => exact absurd hl.symm (exitLabel_ne_indirectLabel _ _ _)
  | computed hhalts hk => exact ⟨indirectLabel_inj.mp hl, hk⟩

/-! ### Where control goes from a block, by its kind -/

theorem Onward.kinds {target : Addr} (h : b.Onward target) :
    b.kind = .fallthrough ∨ b.kind = .jump ∨ b.kind.isCall = true := by
  rcases h with ⟨hk | hk, -⟩ | ⟨hk | ⟨hk, -⟩, -⟩
  · exact Or.inl hk
  · exact Or.inr (Or.inl hk)
  · exact Or.inr (Or.inr hk)
  · exact Or.inl hk

theorem Onward.not_chooses {target : Addr} (h : b.Onward target) : b.chooses = false := by
  unfold chooses
  rcases h.kinds with hk | hk | hk
  · rw [hk]
  · rw [hk]
  · revert hk
    cases b.kind <;> simp [BlockKind.isCall]

theorem Onward.kind_ne {target : Addr} (h : b.Onward target) :
    b.kind ≠ .jumpIndirect ∧ b.kind ≠ .ret := by
  rcases h.kinds with hk | hk | hk
  · rw [hk]
    exact ⟨nofun, nofun⟩
  · rw [hk]
    exact ⟨nofun, nofun⟩
  · revert hk
    cases b.kind <;> simp [BlockKind.isCall]

/-- A block goes on at one address only. -/
theorem Onward.unique {t t' : Addr} (h : b.Onward t) (h' : b.Onward t') : t = t' := by
  rcases h with ⟨hk, hhead⟩ | ⟨hk, hstop⟩
  · rcases h' with ⟨-, hhead'⟩ | ⟨hk' | ⟨-, hnil⟩, -⟩
    · exact Option.some.inj (hhead.symm.trans hhead')
    · rcases hk with hk | hk <;> rw [hk] at hk' <;> cases hk'
    · rw [hnil] at hhead
      cases hhead
  · rcases h' with ⟨hk', hhead'⟩ | ⟨-, hstop'⟩
    · rcases hk with hk | ⟨-, hnil⟩
      · rcases hk' with hk' | hk' <;> rw [hk'] at hk <;> cases hk
      · rw [hnil] at hhead'
        cases hhead'
    · exact UInt64.toNat_inj.mp (hstop.symm.trans hstop')

theorem goes_iff_of_not_chooses (hhalts : b.halts = false) (hc : b.chooses = false) {t : Addr} :
    b.Goes t ↔ b.Onward t := by
  refine ⟨?_, fun h => ⟨hhalts, Or.inl h⟩⟩
  rintro ⟨-, h | ⟨hk | hk, -⟩ | ⟨hk, -⟩⟩
  · exact h
  all_goals
    rw [chooses, hk] at hc
    cases hc

theorem goes_iff_of_between (hhalts : b.halts = false)
    (hk : b.kind = .condJump ∨ b.kind = .repeatedOp) {t : Addr} :
    b.Goes t ↔ t ∈ b.body.staticTargets := by
  refine ⟨?_, fun h => ⟨hhalts, Or.inr (Or.inl ⟨hk, h⟩)⟩⟩
  rintro ⟨-, h | ⟨-, h⟩ | ⟨hk', -⟩⟩
  · have hc := h.not_chooses
    rcases hk with hk | hk <;> rw [chooses, hk] at hc <;> cases hc
  · exact h
  · rcases hk with hk | hk <;> rw [hk] at hk' <;> cases hk'

theorem goes_iff_of_known (hhalts : b.halts = false) (hk : b.kind = .condJumpIndirect) {t : Addr} :
    b.Goes t ↔ b.body.staticTargets.head? = some t := by
  refine ⟨?_, fun h => ⟨hhalts, Or.inr (Or.inr ⟨hk, h⟩)⟩⟩
  rintro ⟨-, h | ⟨hk' | hk', -⟩ | ⟨-, h⟩⟩
  · have hc := h.not_chooses
    rw [chooses, hk] at hc
    cases hc
  · rw [hk] at hk'
    cases hk'
  · rw [hk] at hk'
    cases hk'
  · exact h

end Block

namespace Assembly

variable {entry : Addr} {members : AddrSet} {b : Block} {s s' last : Assembly} {code : CodeBlock}
  {codes : List CodeBlock} {blocks : List Block}

/-! ### The labels that code names -/

/-- The label of an arm. -/
def armLabel (members : AddrSet) (source target : Addr) : String :=
  if target ∈ members then blockLabel target else exitLabel source target

@[simp] theorem arm_fst (members : AddrSet) (source target : Addr) (s : Assembly) :
    (arm members source target s).1 = armLabel members source target := by
  unfold arm armLabel
  split <;> rfl

theorem labels_iff_of_not_chooses (hhalts : b.halts = false) (hc : b.chooses = false)
    {l : String} : b.Labels members l ↔ ∃ t ∈ members, b.Onward t ∧ l = blockLabel t := by
  constructor
  · rintro (⟨h, ht⟩ | ⟨-, -, hc'⟩ | ⟨-, hk⟩)
    · exact ⟨_, ht, (Block.goes_iff_of_not_chooses hhalts hc).mp h, rfl⟩
    · rw [hc] at hc'
      cases hc'
    · rw [Block.chooses, hk] at hc
      cases hc
  · rintro ⟨t, ht, h, rfl⟩
    exact .inside ⟨hhalts, Or.inl h⟩ ht

theorem labels_iff_of_chooses (hhalts : b.halts = false) (hc : b.chooses = true) {l : String} :
    b.Labels members l ↔ (∃ t, b.Goes t ∧ l = armLabel members b.address t) ∨
      (b.kind = .condJumpIndirect ∧ l = indirectLabel b.address) := by
  constructor
  · rintro (⟨h, ht⟩ | ⟨h, ht, -⟩ | ⟨-, hk⟩)
    · exact Or.inl ⟨_, h, (if_pos ht).symm⟩
    · exact Or.inl ⟨_, h, (if_neg ht).symm⟩
    · exact Or.inr ⟨hk, rfl⟩
  · rintro (⟨t, h, rfl⟩ | ⟨hk, rfl⟩)
    · unfold armLabel
      split
      · next ht => exact .inside h ht
      · next ht => exact .outside h ht hc
    · exact .computed hhalts hk

theorem chooses_of_between (hk : b.kind = .condJump ∨ b.kind = .repeatedOp) :
    b.chooses = true := by
  rcases hk with hk | hk <;> rw [Block.chooses, hk]

theorem chooses_of_known (hk : b.kind = .condJumpIndirect) : b.chooses = true := by
  rw [Block.chooses, hk]

theorem flatMap_targets_of_inner {l : List Inst} (h : ∀ i ∈ l, i.isInner = true) :
    l.flatMap Inst.targets = [] :=
  List.flatMap_eq_nil_iff.mpr fun i hi =>
    Inst.targets_of_isTerminator (Inst.isTerminator_of_isInner (h i hi))

theorem targets_transfer {target : Addr} {l : String} :
    l ∈ (transfer members target).flatMap Inst.targets ↔
      target ∈ members ∧ l = blockLabel target := by
  unfold transfer
  split
  · next hmem => simp [Inst.targets, hmem]
  · next hmem => simp [leave, Inst.targets, hmem]

theorem targets_choice {branch : Operand} {known : Addr} {cond : Temp}
    {thenLabel elseLabel l : String} :
    l ∈ (choice branch known cond thenLabel elseLabel).flatMap Inst.targets ↔
      l = thenLabel ∨ l = elseLabel := by
  simp [choice, Inst.targets]

/-- The labels that an ending names. -/
theorem Ending.mem_targets {branch : Option Operand} {final : List Inst}
    (h : Ending members b branch s final s') (hhalts : b.halts = false) (l : String) :
    l ∈ final.flatMap Inst.targets ↔ b.Labels members l := by
  cases h with
  | @onward target h =>
    rw [targets_transfer, labels_iff_of_not_chooses hhalts h.not_chooses]
    constructor
    · rintro ⟨hmem, rfl⟩
      exact ⟨target, hmem, h, rfl⟩
    · rintro ⟨t, hmem, ht, rfl⟩
      obtain rfl := ht.unique h
      exact ⟨hmem, rfl⟩
  | depart hk hb =>
    have hnone : ∀ t, ¬ b.Onward t := fun t ht => ht.kind_ne.1 hk
    rw [labels_iff_of_not_chooses hhalts (by rw [Block.chooses, hk])]
    simp [leave, Inst.targets, hnone]
  | ret hk =>
    have hnone : ∀ t, ¬ b.Onward t := fun t ht => ht.kind_ne.2 hk
    rw [labels_iff_of_not_chooses hhalts (by rw [Block.chooses, hk])]
    simp [Inst.targets, hnone]
  | @between taken other target s1 hk ht hb hnext hexits =>
    have hcomputed : b.kind ≠ .condJumpIndirect := by
      rcases hk with hk | hk <;> rw [hk] <;> decide
    rw [targets_choice, arm_fst, arm_fst, labels_iff_of_chooses hhalts (chooses_of_between hk)]
    simp [Block.goes_iff_of_between hhalts hk, ht, hcomputed]
  | @known known rest target s1 hk ht hb hnext hexits =>
    rw [targets_choice, arm_fst, labels_iff_of_chooses hhalts (chooses_of_known hk)]
    simp [Block.goes_iff_of_known hhalts hk, ht, hk]

theorem jumpMarker_mem_transfer {target : Addr} {o : Operand} :
    Inst.jumpMarker o ∈ transfer members target ↔ target ∉ members ∧ o = .pc target := by
  unfold transfer
  split
  · next hmem => simp [hmem]
  · next hmem => simp [leave, hmem]

/-- The targets for which an ending leaves the function by itself. -/
theorem Ending.jumpMarker_mem {branch : Option Operand} {final : List Inst}
    (h : Ending members b branch s final s') (hhalts : b.halts = false) (o : Operand) :
    .jumpMarker o ∈ final ↔
      (b.chooses = false ∧ ∃ v, b.Goes v ∧ v ∉ members ∧ o = .pc v) ∨
        (b.kind = .jumpIndirect ∧ branch = some o) := by
  cases h with
  | @onward target h =>
    have hc := h.not_chooses
    rw [jumpMarker_mem_transfer]
    constructor
    · rintro ⟨hmem, ho⟩
      exact Or.inl ⟨hc, target, ⟨hhalts, Or.inl h⟩, hmem, ho⟩
    · rintro (⟨-, v, hv, hmem, ho⟩ | ⟨hk, -⟩)
      · obtain rfl := ((Block.goes_iff_of_not_chooses hhalts hc).mp hv).unique h
        exact ⟨hmem, ho⟩
      · exact absurd hk h.kind_ne.1
  | @depart target hk hb =>
    have hc : b.chooses = false := by rw [Block.chooses, hk]
    have hnone : ∀ t, ¬ b.Goes t := fun t ht =>
      ((Block.goes_iff_of_not_chooses hhalts hc).mp ht).kind_ne.1 hk
    simp [leave, hnone, hk, hb, eq_comm (a := target)]
  | ret hk =>
    have hc : b.chooses = false := by rw [Block.chooses, hk]
    have hnone : ∀ t, ¬ b.Goes t := fun t ht =>
      ((Block.goes_iff_of_not_chooses hhalts hc).mp ht).kind_ne.2 hk
    simp [hnone, hk]
  | between hk ht hb hnext hexits =>
    have hkind : b.kind ≠ .jumpIndirect := by
      rcases hk with hk | hk <;> rw [hk] <;> decide
    simp [choice, chooses_of_between hk, hkind]
  | known hk ht hb hnext hexits => simp [choice, chooses_of_known hk, hk]

/-- The labels that the code of a block names. -/
theorem mem_targets_emit (hb : b.Sound) (h : emit entry members b s = .ok (code, s'))
    (l : String) : l ∈ code.targets ↔ b.Labels members l := by
  obtain ⟨inner, target, next, final, -, hinner, -, -, hcloses, rfl⟩ := exists_of_emit hb h
  have htargets : CodeBlock.targets
      { label := blockLabel b.address, insts := renumber s.nextTemp inner ++ final } =
      final.flatMap Inst.targets := by
    rw [CodeBlock.targets, List.flatMap_append,
      flatMap_targets_of_inner (isInner_renumber hinner), List.nil_append]
  rw [htargets]
  rcases hcloses with ⟨hhalts, rfl, -⟩ | ⟨hhalts, hending⟩
  · -- A block that halts goes nowhere.
    refine ⟨nofun, ?_⟩
    rintro (⟨⟨h, -⟩, -⟩ | ⟨⟨h, -⟩, -⟩ | ⟨h, -⟩) <;> rw [hhalts] at h <;> cases h
  · exact (ending_eq_ok hending).mem_targets hhalts l

/-- The targets for which the code of a block leaves the function by itself. -/
theorem jumpMarker_mem_emit (hb : b.Sound) (h : emit entry members b s = .ok (code, s'))
    (o : Operand) : .jumpMarker o ∈ code.insts ↔
      (b.chooses = false ∧ ∃ v, b.Goes v ∧ v ∉ members ∧ o = .pc v) ∨
        (b.halts = false ∧ b.kind = .jumpIndirect ∧
          b.body.branchTarget?.map (Operand.mapTemp (· + s.nextTemp)) = some o) := by
  obtain ⟨inner, target, next, final, -, hinner, rfl, -, hcloses, rfl⟩ := exists_of_emit hb h
  have hfinal : Inst.jumpMarker o ∈ renumber s.nextTemp inner ++ final ↔
      Inst.jumpMarker o ∈ final := by
    rw [List.mem_append, or_iff_right]
    intro hmem
    exact absurd (isInner_renumber hinner _ hmem) Bool.false_ne_true
  rw [hfinal]
  rcases hcloses with ⟨hhalts, rfl, -⟩ | ⟨hhalts, hending⟩
  · simp [Block.Goes, hhalts]
  · rw [(ending_eq_ok hending).jumpMarker_mem hhalts]
    simp [hhalts]

/-! ### The blocks through which control leaves -/

/-- The block `e` is there for `b`, whose temporaries were moved by `base`: control leaves
through it from `b`, whose code names it. -/
structure Serves (b : Block) (base : Temp) (code e : CodeBlock) : Prop where
  departs : Departure b.address (b.body.branchTarget?.map (Operand.mapTemp (· + base))) e
  named : e.label ∈ code.targets

theorem grows_arm_label (members : AddrSet) (source target : Addr) (s : Assembly)
    (branch : Option Operand) :
    Grows (fun e => Departure source branch e ∧ e.label = armLabel members source target) s
      (arm members source target s).2 := by
  unfold arm armLabel
  split
  · exact Grows.of_exits_eq rfl
  · refine (grows_exitVia s _ _).mono ?_
    rintro e rfl
    exact ⟨.known target, rfl⟩

/-- What an ending adds, it names. -/
theorem Ending.grows_named {branch : Option Operand} {final : List Inst}
    (h : Ending members b branch s final s') :
    Grows (fun e => Departure b.address branch e ∧ e.label ∈ final.flatMap Inst.targets) s s' := by
  cases h with
  | onward h => exact Grows.of_exits_eq rfl
  | depart hk hb => exact Grows.of_exits_eq rfl
  | ret hk => exact Grows.of_exits_eq rfl
  | @between taken other target s1 hk ht hb hnext hexits =>
    refine (Grows.of_exits_eq hexits).trans (Grows.trans
      ((grows_arm_label members b.address taken s1 branch).mono ?_)
      ((grows_arm_label members b.address other _ branch).mono ?_))
    · rintro e ⟨hdep, hlabel⟩
      exact ⟨hdep, targets_choice.mpr (Or.inl (by rw [hlabel, arm_fst]))⟩
    · rintro e ⟨hdep, hlabel⟩
      exact ⟨hdep, targets_choice.mpr (Or.inr (by rw [hlabel, arm_fst]))⟩
  | @known known rest target s1 hk ht hb hnext hexits =>
    refine (Grows.of_exits_eq hexits).trans (Grows.trans
      ((grows_arm_label members b.address known s1 branch).mono ?_)
      ((grows_exitVia _ (indirectLabel b.address) target).mono ?_))
    · rintro e ⟨hdep, hlabel⟩
      exact ⟨hdep, targets_choice.mpr (Or.inl (by rw [hlabel, arm_fst]))⟩
    · rintro e rfl
      exact ⟨.computed hb, targets_choice.mpr (Or.inr rfl)⟩

theorem grows_emit_serves (hb : b.Sound) (h : emit entry members b s = .ok (code, s')) :
    Grows (Serves b s.nextTemp code) s s' := by
  obtain ⟨inner, target, next, final, -, hinner, rfl, -, hcloses, rfl⟩ := exists_of_emit hb h
  rcases hcloses with ⟨-, -, rfl⟩ | ⟨-, hending⟩
  · exact Grows.of_exits_eq rfl
  · have hgrows := (ending_eq_ok hending).grows_named
    refine Grows.mono ⟨hgrows.added, hgrows.nodup⟩ ?_
    rintro e ⟨hdep, hnamed⟩
    refine ⟨hdep, ?_⟩
    rw [CodeBlock.targets, List.flatMap_append]
    exact List.mem_append_right _ hnamed

/-- The codes are those of the blocks. -/
theorem emitted_of_emitAll (h : emitAll entry members s blocks = .ok (codes, last)) :
    (∀ code ∈ codes, ∃ b ∈ blocks, ∃ s₁ s₂, emit entry members b s₁ = .ok (code, s₂)) ∧
      ∀ b ∈ blocks, ∃ code ∈ codes, ∃ s₁ s₂, emit entry members b s₁ = .ok (code, s₂) := by
  induction blocks generalizing s codes with
  | nil =>
    cases h
    exact ⟨nofun, nofun⟩
  | cons b blocks ih =>
    obtain ⟨⟨code, s₁⟩, hcode, h⟩ := Checked.bind_eq_ok.mp h
    obtain ⟨⟨codes', s₂⟩, hcodes, h⟩ := Checked.bind_eq_ok.mp h
    cases h
    obtain ⟨hleft, hright⟩ := ih hcodes
    rw [List.forall_mem_cons, List.forall_mem_cons]
    refine ⟨⟨⟨b, List.mem_cons_self, s, s₁, hcode⟩, ?_⟩,
      ⟨code, List.mem_cons_self, s, s₁, hcode⟩, ?_⟩
    · intro c hc
      obtain ⟨d, hd, hemit⟩ := hleft c hc
      exact ⟨d, List.mem_cons_of_mem _ hd, hemit⟩
    · intro d hd
      obtain ⟨c, hc, hemit⟩ := hright d hd
      exact ⟨c, List.mem_cons_of_mem _ hc, hemit⟩

theorem label_of_emit (h : emit entry members b s = .ok (code, s')) :
    code.label = blockLabel b.address := by
  obtain ⟨_, _, -, -, rfl⟩ := emit_eq_ok.mp h
  rfl

/-- Every block through which control leaves is there for one of the blocks. -/
theorem grows_emitAll_serves (hb : ∀ b ∈ blocks, b.Sound)
    (h : emitAll entry members s blocks = .ok (codes, last)) :
    Grows (fun e => ∃ b ∈ blocks, ∃ code ∈ codes, ∃ s₁ s₂,
      emit entry members b s₁ = .ok (code, s₂) ∧ Serves b s₁.nextTemp code e) s last := by
  induction blocks generalizing s codes with
  | nil =>
    cases h
    exact Grows.of_exits_eq rfl
  | cons b blocks ih =>
    obtain ⟨⟨code, s₁⟩, hcode, h⟩ := Checked.bind_eq_ok.mp h
    obtain ⟨⟨codes', s₂⟩, hcodes, h⟩ := Checked.bind_eq_ok.mp h
    cases h
    obtain ⟨hsound, hb⟩ := List.forall_mem_cons.mp hb
    refine ((grows_emit_serves hsound hcode).mono ?_).trans ((ih hb hcodes).mono ?_)
    · intro e he
      exact ⟨b, List.mem_cons_self, code, List.mem_cons_self, s, s₁, hcode, he⟩
    · rintro e ⟨c, hc, code', hcode', he⟩
      exact ⟨c, List.mem_cons_of_mem _ hc, code', List.mem_cons_of_mem _ hcode', he⟩

end Assembly

/-! ### Functions -/

/-- Control can go from the one block to the other, which is one of the function's. -/
def Func.Goes (f : Func) (c d : CodeBlock) : Prop := d ∈ f.blocks ∧ d.label ∈ c.targets

/-- The function consists of the codes of sound blocks at different addresses, and of the
blocks through which control leaves from them. -/
structure Func.MadeOf (f : Func) (entry : Addr) (members : AddrSet) (blocks : List Block)
    (codes : List CodeBlock) (last : Assembly) : Prop where
  sound : ∀ b ∈ blocks, b.Sound
  nodup : (blocks.map (·.address)).Nodup
  emitted : Assembly.emitAll entry members {} blocks = .ok (codes, last)
  blocks_eq : f.blocks = codes ++ last.exits

theorem Store.Sound.madeOf {s : Store} {naming : Naming} {entries : AddrSet} {entry : Addr}
    {f : Func} (hs : s.Sound) (h : s.assemble naming entries entry = .ok f) :
    ∃ codes last, f.MadeOf entry (s.closure entries entry) (s.functionBlocks entries entry)
      codes last := by
  obtain ⟨first, codes, last, hget, hemit, hblocks⟩ := exists_of_assemble h
  refine ⟨codes, last, ?_, nodup_functionBlocks hs.keyed hget, hemit, hblocks⟩
  intro b hb
  obtain ⟨a, -, ha⟩ := mem_functionBlocks.mp hb
  exact hs.blocks a b ha

namespace Func.MadeOf

open Assembly

variable {f : Func} {entry : Addr} {members : AddrSet} {blocks : List Block}
  {codes : List CodeBlock} {last : Assembly}

theorem code_of_mem (h : f.MadeOf entry members blocks codes last) {code : CodeBlock}
    (hcode : code ∈ codes) :
    ∃ b ∈ blocks, ∃ s₁ s₂, b.Sound ∧ emit entry members b s₁ = .ok (code, s₂) := by
  obtain ⟨b, hb, s₁, s₂, hemit⟩ := (emitted_of_emitAll h.emitted).1 code hcode
  exact ⟨b, hb, s₁, s₂, h.sound b hb, hemit⟩

theorem exit_of_mem (h : f.MadeOf entry members blocks codes last) {e : CodeBlock}
    (he : e ∈ last.exits) :
    ∃ b ∈ blocks, ∃ code ∈ codes, ∃ s₁ s₂, b.Sound ∧ emit entry members b s₁ = .ok (code, s₂) ∧
      Serves b s₁.nextTemp code e := by
  obtain ⟨new, hnew, hall⟩ := (grows_emitAll_serves h.sound h.emitted).added
  rw [hnew] at he
  obtain ⟨b, hb, code, hcode, s₁, s₂, hemit, hserves⟩ := hall e he
  exact ⟨b, hb, code, hcode, s₁, s₂, h.sound b hb, hemit, hserves⟩

/-- A label stands for one block of the function. -/
theorem eq_of_label (h : f.MadeOf entry members blocks codes last) {c d : CodeBlock}
    (hc : c ∈ f.blocks) (hd : d ∈ f.blocks) (hlabel : c.label = d.label) : c = d := by
  have hnodup : (f.blocks.map (·.label)).Nodup := by
    rw [h.blocks_eq, List.map_append]
    exact (emission_emitAll h.sound h.emitted).nodup_labels h.nodup
  exact List.inj_on_of_nodup_map hnodup hc hd hlabel

end Func.MadeOf

end FlowRecovery
