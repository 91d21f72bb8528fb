/-
Assembly keeps where control goes.

The raw branch of a block sets the next program counter.  Assembly replaces it by
terminators, and by blocks through which control leaves the function; running these
(`follow`) has to lead where the branch did, whatever the temporaries hold.

* `follow_arm` — an arm of a choice leads to its target, inside or outside;
* `Ending.delivers` — so does every ending, for a body that keeps the contract of its
  kind;
* `emit_delivers` — a block that was classified and split delivers its next program
  counter in the assembled function.  An indirect jump leaves the function even if its
  target is a literal inside it (`literal_jumpIndirect_leaves`).
-/
import FlowRecovery.Proofs.Assembly.Emission
import FlowRecovery.Proofs.Body.Transfer

namespace FlowRecovery

/-! ### Values and outcomes -/

/-- Values of the temporaries and of the handle of the processor state. -/
structure Valuation where
  temp : Temp → Word
  env : Word

/-- The value of an operand. -/
def Operand.eval (ρ : Valuation) : Operand → Word
  | .const value => value
  | .pc value => value
  | .temp id => ρ.temp id
  | .env => ρ.env
  | .dataRef _ _ address => address
  | .functionRef _ address => address
  | .importRef _ slot => slot

namespace Valuation

/-- Whether what the instruction defines may have the value it has: a selection yields one
of its two operands, and a test for equality compares. -/
def admits (ρ : Valuation) : Inst → Bool
  | .select dst _ x y => ρ.temp dst = x.eval ρ ∨ ρ.temp dst = y.eval ρ
  | .binary dst .eq x y => ρ.temp dst = if x.eval ρ = y.eval ρ then 1 else 0
  | _ => true

/-- The valuation admits every instruction of the code. -/
def Respects (ρ : Valuation) (insts : List Inst) : Prop := ∀ i ∈ insts, ρ.admits i = true

theorem Respects.mono {ρ : Valuation} {l m : List Inst} (h : ρ.Respects m)
    (hl : ∀ i ∈ l, i ∈ m) : ρ.Respects l :=
  fun i hi => h i (hl i hi)

end Valuation

/-- Where control goes at the end of code. -/
inductive Outcome where
  | goto (label : String)
  /-- Control leaves the function for an address. -/
  | leave (target : Word)
  | returned
  deriving DecidableEq, Repr

/-- Where control goes from the code of one block. -/
def control (ρ : Valuation) : List Inst → Option Outcome
  | [] => none
  | .jump label :: _ => some (.goto label)
  | .condJump cond thenLabel elseLabel :: _ =>
    some (.goto (if cond.eval ρ ≠ 0 then thenLabel else elseLabel))
  | .jumpMarker target :: rest =>
    if rest = [.ret] then some (.leave (target.eval ρ)) else control ρ rest
  | .ret :: _ => some .returned
  | _ :: rest => control ρ rest

/-- Where control goes from the code of a block if it is followed through the given exit
blocks. -/
def follow (ρ : Valuation) (exits : List CodeBlock) (insts : List Inst) : Option Outcome :=
  match control ρ insts with
  | some (.goto label) =>
    match exits.find? (·.label == label) with
    | some e => control ρ e.insts
    | none => some (.goto label)
  | outcome => outcome

/-- Where control arrives that goes to an address. -/
def arrival (members : AddrSet) (target : Addr) : Outcome :=
  if target ∈ members then .goto (blockLabel target) else .leave target

/-- Where the block has to deliver the next program counter `v`: to the block there if `v`
is one of its literal targets and a member, else out of the function.  Indirect jumps
always leave. -/
def delivery (members : AddrSet) (b : Block) (v : Addr) : Outcome :=
  if v ∈ b.body.staticTargets ∧ v ∈ members ∧ b.kind ≠ .jumpIndirect then
    .goto (blockLabel v)
  else .leave v

theorem delivery_of_mem {members : AddrSet} {b : Block} {v : Addr}
    (h : v ∈ b.body.staticTargets) (hk : b.kind ≠ .jumpIndirect) :
    delivery members b v = arrival members v := by
  simp [delivery, arrival, h, hk]

theorem delivery_of_not_mem {members : AddrSet} {b : Block} {v : Addr}
    (h : v ∉ b.body.staticTargets) : delivery members b v = .leave v := by
  simp [delivery, h]

/-- Inner code hands control on to the code behind it. -/
theorem control_append {ρ : Valuation} {l m : List Inst} (h : ∀ i ∈ l, i.isInner = true) :
    control ρ (l ++ m) = control ρ m := by
  induction l with
  | nil => rfl
  | cons i l ih =>
    obtain ⟨hi, hl⟩ := List.forall_mem_cons.mp h
    cases i with
    | jump label => cases hi
    | condJump cond thenLabel elseLabel => cases hi
    | jumpMarker target => cases hi
    | ret => cases hi
    | _ => exact ih hl

theorem follow_append {ρ : Valuation} {exits : List CodeBlock} {l m : List Inst}
    (h : ∀ i ∈ l, i.isInner = true) : follow ρ exits (l ++ m) = follow ρ exits m := by
  rw [follow, control_append h]
  rfl

/-- If exactly one operand is a literal, there is one literal target. -/
theorem Body.staticTargets_of_one {b : Body}
    (h : b.Selects fun x y => x.pc?.isSome ≠ y.pc?.isSome) : ∃ k, b.staticTargets = [k] := by
  obtain ⟨t, cond, x, y, ht, hdef, hone⟩ := h
  rw [staticTargets_of_select ht hdef]
  cases hx : x.pc? with
  | none =>
    cases hy : y.pc? with
    | none => simp [hx, hy] at hone
    | some k => exact ⟨k, by simp [hx, hy]⟩
  | some k =>
    cases hy : y.pc? with
    | none => exact ⟨k, by simp [hx, hy]⟩
    | some l => simp [hx, hy] at hone

/-- A body that keeps the contract of its kind lacks no target. -/
theorem Block.lacksTarget_of_transfers {b : Block} (h : b.body.Transfers b.kind) :
    b.lacksTarget = false := by
  have htwo : (b.body.Selects fun x y => ∃ v w, x = .pc v ∧ y = .pc w) →
      b.body.staticTargets.length = 2 := by
    rintro ⟨t, cond, x, y, ht, hdef, v, w, rfl, rfl⟩
    rw [Body.staticTargets_of_select ht hdef]
    rfl
  unfold lacksTarget
  cases hk : b.kind <;> rw [hk] at h
  case jump =>
    obtain ⟨v, hv⟩ := h
    simp [Body.staticTargets_of_pc hv]
  case condJump => simp [htwo h]
  case repeatedOp => simp [htwo h]
  case condJumpIndirect =>
    obtain ⟨k, hone⟩ := Body.staticTargets_of_one h
    simp [hone]
  case jumpIndirect =>
    obtain ⟨target, ht⟩ := h
    simp [ht]

/-- No block that is made of such a unit lacks a target. -/
theorem Block.From.lacksTarget_eq_false {u : Lifted} {b : Block} (h : b.From u)
    (hu : u.body.Transfers u.kind) : b.lacksTarget = false := by
  cases hcall : u.kind.isCall with
  | false => exact lacksTarget_of_transfers (h.transfers hcall hu)
  | true =>
    obtain ⟨limit, -, hk | ⟨hk, -⟩⟩ := h.onward hcall
    · unfold lacksTarget
      revert hk
      cases b.kind <;> simp [BlockKind.isCall]
    · simp [lacksTarget, hk]

/-! ### Blocks through which control leaves -/

/-- Every one of the blocks is one through which control leaves. -/
def AllDepart (exits : List CodeBlock) : Prop :=
  ∀ e ∈ exits, ∃ source branch, Departure source branch e

theorem AllDepart.find?_blockLabel {exits : List CodeBlock} (h : AllDepart exits) (a : Addr) :
    exits.find? (·.label == blockLabel a) = none := by
  refine List.find?_eq_none.mpr fun e he => ?_
  obtain ⟨source, branch, hdep⟩ := h e he
  have hne : blockLabel a ≠ e.label := by
    cases hdep with
    | known target => exact blockLabel_ne_exitLabel a source target
    | computed _ => exact blockLabel_ne_indirectLabel a source
  simpa using fun heq : e.label = blockLabel a => hne heq.symm

/-- The block that is found under the label of an exit leaves for the exit's target. -/
theorem AllDepart.find?_exitLabel {exits : List CodeBlock} (h : AllDepart exits)
    {source target : Addr} (hmem : exitLabel source target ∈ exits.map (·.label)) :
    ∃ e, exits.find? (·.label == exitLabel source target) = some e ∧
      e.insts = leave (.pc target) := by
  obtain ⟨e, he, hlabel⟩ := List.mem_map.mp hmem
  have hsome : (exits.find? (·.label == exitLabel source target)).isSome = true :=
    List.find?_isSome.mpr ⟨e, he, by simpa using hlabel⟩
  obtain ⟨e', he'⟩ := Option.isSome_iff_exists.mp hsome
  refine ⟨e', he', ?_⟩
  have hlabel' : e'.label = exitLabel source target := by
    simpa using List.find?_some he'
  obtain ⟨source', branch, hdep⟩ := h e' (List.mem_of_find?_eq_some he')
  cases hdep with
  | known target' => rw [(exitLabel_inj.mp hlabel').2]
  | computed _ => exact absurd hlabel'.symm (exitLabel_ne_indirectLabel source target source')

namespace Assembly

variable {entry : Addr} {members : AddrSet} {b : Block} {s s' last : Assembly} {code : CodeBlock}
  {codes : List CodeBlock} {blocks : List Block} {ρ : Valuation}

theorem grows_emit (h : emit entry members b s = .ok (code, s')) :
    Grows (fun e => ∃ branch, Departure b.address branch e) s s' := by
  obtain ⟨body, final, -, hcloses, -⟩ := emit_eq_ok.mp h
  have hgrows := hcloses.closing.grows.mono fun e he =>
    (⟨_, he⟩ : ∃ branch, Departure b.address branch e)
  exact ⟨hgrows.added, hgrows.nodup⟩

/-- Emission adds blocks through which control leaves from the emitted blocks. -/
theorem grows_emitAll (h : emitAll entry members s blocks = .ok (codes, last)) :
    Grows (fun e => ∃ b ∈ blocks, ∃ branch, Departure b.address branch e) s last := by
  induction blocks generalizing s codes with
  | nil =>
    cases h
    exact Grows.of_exits_eq rfl
  | cons b blocks ih =>
    obtain ⟨⟨code, s1⟩, hcode, h⟩ := Checked.bind_eq_ok.mp h
    obtain ⟨⟨codes', s2⟩, hcodes, h⟩ := Checked.bind_eq_ok.mp h
    cases h
    refine ((grows_emit hcode).mono ?_).trans ((ih hcodes).mono ?_)
    · exact fun e he => ⟨b, List.mem_cons_self, he⟩
    · rintro e ⟨c, hc, he⟩
      exact ⟨c, List.mem_cons_of_mem _ hc, he⟩

theorem Grows.allDepart {New : CodeBlock → Prop} (h : Grows New s s') (hs : AllDepart s.exits)
    (hnew : ∀ e, New e → ∃ source branch, Departure source branch e) : AllDepart s'.exits := by
  obtain ⟨new, hexits, hall⟩ := h.added
  rw [AllDepart, hexits, List.forall_mem_append]
  exact ⟨hs, fun e he => hnew e (hall e he)⟩

theorem allDepart_of_emitAll (h : emitAll entry members {} blocks = .ok (codes, last)) :
    AllDepart last.exits :=
  (grows_emitAll h).allDepart (fun _ he => absurd he List.not_mem_nil)
    fun _ ⟨c, _, branch, hdep⟩ => ⟨c.address, branch, hdep⟩

/-- The way out for an unknown target belongs to the block that it is named for. -/
theorem indirectLabel_not_mem_of_emitAll {a : Addr}
    (h : emitAll entry members {} blocks = .ok (codes, last))
    (hnew : a ∉ blocks.map (·.address)) : indirectLabel a ∉ last.exitLabels := by
  intro hmem
  obtain ⟨new, hexits, hall⟩ := (grows_emitAll h).added
  obtain ⟨e, he, hlabel⟩ := List.mem_map.mp hmem
  obtain ⟨c, hc, branch, hdep⟩ := hall e (by rw [hexits] at he; exact he)
  cases hdep with
  | known target => exact exitLabel_ne_indirectLabel c.address target a hlabel
  | computed _ => exact hnew (List.mem_map.mpr ⟨c, hc, indirectLabel_inj.mp hlabel⟩)

/-! ### Endings -/

theorem follow_blockLabel {exits : List CodeBlock} {insts : List Inst} {target : Addr}
    (hdep : AllDepart exits) (h : control ρ insts = some (.goto (blockLabel target))) :
    follow ρ exits insts = some (.goto (blockLabel target)) := by
  rw [follow, h]
  simp only [hdep.find?_blockLabel]

/-- An arm leads to its target. -/
theorem follow_arm {New : CodeBlock → Prop} {source target : Addr} {insts : List Inst}
    (h : control ρ insts = some (.goto (arm members source target s).1))
    (hgrows : Grows New (arm members source target s).2 last) (hdep : AllDepart last.exits) :
    follow ρ last.exits insts = some (arrival members target) := by
  rcases arm_cases members source target s with ⟨hmem, hlabel⟩ | ⟨hmem, hlabel, hin⟩
  · rw [hlabel] at h
    rw [follow_blockLabel hdep h, arrival, if_pos hmem]
  · rw [hlabel] at h
    obtain ⟨e, he, hinsts⟩ := hdep.find?_exitLabel (hgrows.mem_exitLabels hin)
    rw [follow, h]
    simp only [he, hinsts, arrival, if_neg hmem]
    rfl

theorem follow_transfer (hdep : AllDepart last.exits) (target : Addr) :
    follow ρ last.exits (transfer members target) = some (arrival members target) := by
  unfold transfer arrival
  split
  · exact follow_blockLabel hdep rfl
  · rfl

/-- The first block that is found under a label that was not there is the one added. -/
theorem find?_exitVia {label : String} {target : Operand} (h : label ∉ s.exitLabels) :
    (s.exitVia label target).exits.find? (·.label == label) =
      some { label, insts := leave target } := by
  have hany : ¬ s.exits.any (·.label == label) = true := by
    intro hany
    obtain ⟨e, he, hlabel⟩ := List.any_eq_true.mp hany
    exact h (List.mem_map.mpr ⟨e, he, by simpa using hlabel⟩)
  have hnone : s.exits.find? (·.label == label) = none := by
    refine List.find?_eq_none.mpr fun e he hlabel => hany (List.any_eq_true.mpr ⟨e, he, hlabel⟩)
  rw [exitVia, if_neg hany]
  simp [List.find?_append, hnone]

theorem control_choice {target : Operand} {known : Addr} {cond : Temp}
    {thenLabel elseLabel : String}
    (hρ : ρ.Respects (choice target known cond thenLabel elseLabel)) :
    control ρ (choice target known cond thenLabel elseLabel) =
      some (.goto (if target.eval ρ = known then thenLabel else elseLabel)) := by
  have hcond : ρ.temp cond = if target.eval ρ = known then 1 else 0 :=
    of_decide_eq_true (hρ (.binary cond .eq target (.pc known)) List.mem_cons_self)
  show some (Outcome.goto (if ρ.temp cond ≠ 0 then thenLabel else elseLabel)) = _
  rw [hcond]
  by_cases heq : target.eval ρ = known
  · simp [heq]
  · simp [heq]

theorem indirectLabel_not_mem_arm {source target a : Addr} (h : indirectLabel a ∉ s.exitLabels) :
    indirectLabel a ∉ (arm members source target s).2.exitLabels := by
  unfold arm
  split
  · exact h
  · obtain ⟨new, hexits, hall⟩ := (grows_exitVia s (exitLabel source target) (.pc target)).added
    show indirectLabel a ∉ (s.exitVia (exitLabel source target) (.pc target)).exitLabels
    rw [exitLabels, hexits, List.map_append, List.mem_append, not_or]
    refine ⟨h, fun hmem => ?_⟩
    obtain ⟨e, he, hlabel⟩ := List.mem_map.mp hmem
    rw [hall e he] at hlabel
    exact exitLabel_ne_indirectLabel source target a hlabel

/-- Every ending of a body that keeps the contract of its kind leads where the raw branch
does, in every function that goes on from there. -/
theorem Ending.delivers {New : CodeBlock → Prop} {branch : Option Operand} {final : List Inst}
    {f : Temp → Temp} (h : Ending members b branch s final s')
    (htransfers : b.body.Transfers b.kind) (hcall : b.kind.isCall = false) (hret : b.kind ≠ .ret)
    (hbranch : branch = b.body.branchTarget?.map (Operand.mapTemp f))
    (hselect : b.kind = .condJump ∨ b.kind = .repeatedOp →
      ∀ o ∈ branch, o.eval ρ ∈ b.body.staticTargets)
    (hρ : ρ.Respects final) (hgrows : Grows New s' last) (hdep : AllDepart last.exits)
    (hnew : indirectLabel b.address ∉ s.exitLabels) :
    ∃ target ∈ branch,
      follow ρ last.exits final = some (delivery members b (target.eval ρ)) := by
  cases h with
  | @onward target h =>
    have hliteral : b.kind = .fallthrough ∨ b.kind = .jump →
        ∃ v, b.body.branchTarget? = some (.pc v) := by
      rintro (hk | hk)
      · rw [hk] at htransfers
        exact htransfers
      · rw [hk] at htransfers
        exact htransfers
    rcases h with ⟨hk, hhead⟩ | ⟨hk | ⟨hk, hnil⟩, -⟩
    · obtain ⟨v, hv⟩ := hliteral hk
      have ht := Body.staticTargets_of_pc hv
      rw [ht, List.head?_cons, Option.some.injEq] at hhead
      subst hhead
      refine ⟨.pc v, by rw [hbranch, hv]; rfl, ?_⟩
      rw [follow_transfer hdep, Operand.eval, delivery_of_mem]
      · rw [ht]
        exact List.mem_cons_self
      · rcases hk with hk | hk <;> rw [hk] <;> nofun
    · rw [hcall] at hk
      cases hk
    · obtain ⟨v, hv⟩ := hliteral (Or.inl hk)
      rw [Body.staticTargets_of_pc hv] at hnil
      cases hnil
  | @depart target hk hb =>
    refine ⟨target, hb, ?_⟩
    rw [delivery, if_neg (fun h => h.2.2 hk)]
    rfl
  | ret hk => exact absurd hk hret
  | @between taken other target s1 hk ht hb hnext hexits =>
    refine ⟨target, hb, ?_⟩
    have hmem : target.eval ρ = taken ∨ target.eval ρ = other := by
      simpa [ht] using hselect hk target hb
    have hkind : b.kind ≠ .jumpIndirect := by
      rcases hk with hk | hk <;> rw [hk] <;> nofun
    have hdeliver : delivery members b (target.eval ρ) = arrival members (target.eval ρ) :=
      delivery_of_mem (by rcases hmem with hmem | hmem <;> simp [ht, hmem]) hkind
    rw [hdeliver]
    have hcontrol := control_choice hρ
    by_cases heq : target.eval ρ = taken
    · rw [if_pos heq] at hcontrol
      rw [heq]
      exact follow_arm hcontrol ((grows_arm members b.address other _ branch).mono
        (fun _ _ => trivial) |>.trans (hgrows.mono fun _ _ => trivial)) hdep
    · rw [if_neg heq] at hcontrol
      rw [hmem.resolve_left heq]
      exact follow_arm hcontrol hgrows hdep
  | @known known rest target s1 hk ht hb hnext hexits =>
    refine ⟨target, hb, ?_⟩
    have hcontrol := control_choice hρ
    by_cases heq : target.eval ρ = known
    · rw [if_pos heq] at hcontrol
      rw [heq, delivery_of_mem (by rw [ht]; exact List.mem_cons_self) (by rw [hk]; nofun)]
      exact follow_arm hcontrol ((grows_exitVia _ _ _).mono (fun _ _ => trivial)
        |>.trans (hgrows.mono fun _ _ => trivial)) hdep
    · rw [if_neg heq] at hcontrol
      -- There is but one literal target, so the value is none.
      obtain ⟨k, hone⟩ := Body.staticTargets_of_one (hk ▸ htransfers)
      rw [delivery_of_not_mem]
      · have hnot : indirectLabel b.address ∉ (arm members b.address known s1).2.exitLabels :=
          indirectLabel_not_mem_arm (by rw [exitLabels, hexits]; exact hnew)
        rw [follow, hcontrol]
        simp only [hgrows.find?_eq (find?_exitVia hnot)]
        rfl
      · rw [hone] at ht ⊢
        rw [List.mem_singleton, (List.cons.inj ht).1]
        exact heq

/-- A block that goes on right behind itself arrives there. -/
theorem Ending.arrives {branch : Option Operand} {final : List Inst} {limit : Addr}
    (h : Ending members b branch s final s') (hstop : b.stop = limit.toNat)
    (hk : b.kind.isCall = true ∨ (b.kind = .fallthrough ∧ b.body.staticTargets = [limit]))
    (hdep : AllDepart last.exits) :
    follow ρ last.exits final = some (arrival members limit) := by
  have hkinds : b.kind = .call ∨ b.kind = .callIndirect ∨ b.kind = .fallthrough := by
    rcases hk with hk | ⟨hk, -⟩
    · revert hk
      cases b.kind <;> simp [BlockKind.isCall]
    · exact Or.inr (Or.inr hk)
  cases h with
  | @onward target h =>
    have htarget : target = limit := by
      rcases h with ⟨hfall, hhead⟩ | ⟨-, hstop'⟩
      · rcases hk with hk | ⟨hk, ht⟩
        · rcases hfall with hfall | hfall <;> simp [hfall, BlockKind.isCall] at hk
        · rw [ht, List.head?_cons, Option.some.injEq] at hhead
          exact hhead.symm
      · exact UInt64.toNat_inj.mp (hstop'.symm.trans hstop)
    rw [htarget]
    exact follow_transfer hdep limit
  | depart hk' => simp [hk'] at hkinds
  | ret hk' => simp [hk'] at hkinds
  | between hk' => rcases hk' with hk' | hk' <;> simp [hk'] at hkinds
  | known hk' => simp [hk'] at hkinds

theorem Ending.returns {branch : Option Operand} {final : List Inst}
    (h : Ending members b branch s final s') (hk : b.kind = .ret) :
    follow ρ last.exits final = some .returned := by
  cases h with
  | ret _ => rfl
  | onward h =>
    rcases h with ⟨hk' | hk', -⟩ | ⟨hk' | ⟨hk', -⟩, -⟩ <;> simp [hk, BlockKind.isCall] at hk'
  | depart hk' => simp [hk] at hk'
  | between hk' => simp [hk] at hk'
  | known hk' => simp [hk] at hk'

end Assembly

/-- The value of a selection between literals is one of the literal targets. -/
theorem eval_mem_staticTargets {b : Block} {ρ : Valuation} {base : Temp} {inner : List Inst}
    {target : Option Operand} (hb : b.Sound) (htransfers : b.body.Transfers b.kind)
    (hinsts : b.body.insts = inner ++ Body.rawEnd target)
    (hbranch : b.body.branchTarget? = target) (hρ : ρ.Respects (renumber base inner))
    (hk : b.kind = .condJump ∨ b.kind = .repeatedOp) :
    ∀ o ∈ target.map (Operand.mapTemp (· + base)), o.eval ρ ∈ b.body.staticTargets := by
  obtain ⟨t, cond, x, y, ht, hdef, v, w, rfl, rfl⟩ :
      b.body.Selects fun x y => ∃ v w, x = .pc v ∧ y = .pc w := by
    rcases hk with hk | hk <;> rw [hk] at htransfers <;> exact htransfers
  rw [← hbranch, ht, Body.staticTargets_of_select ht hdef]
  rintro o ⟨⟩
  have hmem : Inst.select t cond (.pc v) (.pc w) ∈ inner := by
    have hin := (hb.lawful.definition?_eq_some.mp hdef).1
    rw [hinsts, List.mem_append] at hin
    refine hin.resolve_right fun hend => ?_
    cases target <;> simp [Body.rawEnd] at hend
  rcases of_decide_eq_true (hρ _ (List.mem_map_of_mem hmem)) with hv | hv
  · exact List.mem_cons.mpr (Or.inl hv)
  · exact List.mem_cons_of_mem _ (List.mem_singleton.mpr hv)

namespace Assembly

/-- **Assembly preserves control transfer.**  Take a block that does not halt and that a
unit was classified and split into, where the unit keeps the contract of its kind, and
emit it behind any other blocks and before any others.  Whatever the temporaries hold,
running its terminators leads where its raw branch does: to the block there if that is
one of its literal targets and a member, else out of the function, which an indirect jump
always leaves.  Calls go on right behind the block, and returns return. -/
theorem emit_delivers {u : Lifted} {b : Block} {entry : Addr} {members : AddrSet}
    {before : List Block} {codes : List CodeBlock} {s : Assembly} (hfrom : b.From u)
    (hu : u.body.Transfers u.kind) (hhalts : b.halts = false)
    (hbefore : emitAll entry members {} before = .ok (codes, s))
    (hnew : b.address ∉ before.map (·.address))
    (hroom : s.nextTemp.toNat + b.demand < 0x100000000) :
    ∃ code s' inner final, emit entry members b s = .ok (code, s') ∧
      code.label = blockLabel b.address ∧
      b.body.insts = inner ++ Body.rawEnd b.body.branchTarget? ∧
      code.insts = renumber s.nextTemp inner ++ final ∧
      ∀ after codes' last, emitAll entry members s' after = .ok (codes', last) →
      ∀ ρ : Valuation, ρ.Respects code.insts →
        (u.kind.isCall = true → ∃ limit, b.limit = (.ok limit : Checked AssembleError Addr) ∧
          follow ρ last.exits code.insts = some (arrival members limit)) ∧
        (b.kind = .ret → follow ρ last.exits code.insts = some .returned) ∧
        (u.kind.isCall = false → b.kind ≠ .ret →
          ∃ target, b.body.branchTarget? = some target ∧ follow ρ last.exits code.insts =
            some (delivery members b ((target.mapTemp (· + s.nextTemp)).eval ρ))) := by
  have hsound := hfrom.sound
  have hstuck : b.stuck = false := by simp [Block.stuck, hfrom.lacksTarget_eq_false hu]
  obtain ⟨code, s', hemit, -⟩ := (emit_of_room entry members s hsound hroom).2 hstuck
  obtain ⟨inner, target, next, final, hinsts, hinner, hbranch, -, hcloses, rfl⟩ :=
    exists_of_emit hsound hemit
  refine ⟨_, s', inner, final, hemit, rfl, by rw [hbranch]; exact hinsts, rfl, ?_⟩
  intro after codes' last hafter ρ hρ
  have hending := ending_eq_ok (hcloses.resolve_left fun h => by rw [hhalts] at h; cases h.1).2
  have hgrows := grows_emitAll hafter
  have hdep' : AllDepart s'.exits := by
    refine (grows_emit hemit).allDepart (allDepart_of_emitAll hbefore) ?_
    rintro e ⟨branch, hdep⟩
    exact ⟨b.address, branch, hdep⟩
  have hdep : AllDepart last.exits := by
    refine hgrows.allDepart hdep' ?_
    rintro e ⟨c, _, branch, hdep⟩
    exact ⟨c.address, branch, hdep⟩
  show (_ → ∃ limit, _ ∧ follow ρ last.exits (renumber s.nextTemp inner ++ final) = _) ∧ _
  rw [follow_append (isInner_renumber hinner)]
  refine ⟨fun hcall => ?_, fun hret => ?_, fun hcall hret => ?_⟩
  · obtain ⟨limit, hstop, hk⟩ := hfrom.onward hcall
    exact ⟨limit, Block.limit_eq_ok.mpr hstop, hending.arrives hstop hk hdep⟩
  · exact hending.returns hret
  · have htransfers := hfrom.transfers hcall hu
    have hleft : ρ.Respects (renumber s.nextTemp inner) :=
      hρ.mono fun i hi => List.mem_append_left _ hi
    have hright : ρ.Respects final := hρ.mono fun i hi => List.mem_append_right _ hi
    have hfresh : indirectLabel b.address ∉ s.exitLabels :=
      indirectLabel_not_mem_of_emitAll hbefore hnew
    obtain ⟨o, ho, hfollow⟩ := hending.delivers htransfers (hfrom.isCall_eq_false hcall) hret
      (by rw [hbranch]) (eval_mem_staticTargets hsound htransfers hinsts hbranch hleft) hright
      hgrows hdep hfresh
    obtain ⟨raw, hraw, rfl⟩ := Option.map_eq_some_iff.mp (Option.mem_def.mp ho)
    exact ⟨raw, hbranch.trans hraw, hfollow⟩

end Assembly

/-- A unit of two instructions, of which the second goes back to the first or leaves. -/
def Lifted.retry : Lifted :=
  { address := 16, size := 4, kind := .condJump
    body :=
      { insts := [.setPc 16, .readReg 0 "zf", .setPc 18,
          .select 1 (.temp 0) (.pc 16) (.pc 32), .branch (.temp 1), .exit]
        nextTemp := 2 } }

/-- The block of that unit. -/
def Block.retry : Block :=
  { address := 16, size := 4, kind := .condJump, successors := .ofList [16, 20, 32]
    body :=
      { insts := [.marker 16, .setPc 16, .readReg 0 "zf", .marker 18, .setPc 18,
          .select 1 (.temp 0) (.pc 16) (.pc 32), .branch (.temp 1), .exit]
        nextTemp := 2 } }

/-- The first half of the block. -/
def Block.retryFirst : Block :=
  { address := 16, size := 2, kind := .fallthrough, successors := .singleton 18
    body :=
      { insts := [.marker 16, .setPc 16, .readReg 0 "zf", .branch (.pc 18), .exit]
        nextTemp := 2 } }

/-- The second half, to which the flag that it reads is carried over. -/
def Block.retrySecond : Block :=
  { address := 18, size := 2, kind := .condJump, successors := .ofList [16, 20, 32]
    body :=
      { insts := [.marker 18, .readReg 0 "zf", .setPc 18,
          .select 1 (.temp 0) (.pc 16) (.pc 32), .branch (.temp 1), .exit]
        nextTemp := 2 } }

/-- The code of the second half behind that of the first. -/
def CodeBlock.retrySecond : CodeBlock :=
  { label := "bb_12"
    insts := [.marker 18, .readReg 2 "zf", .setPc 18, .select 3 (.temp 2) (.pc 16) (.pc 32),
      .binary 4 .eq (.temp 3) (.pc 16), .condJump (.temp 4) "bb_10" "bb_12_exit_20"] }

/-- What the second half leaves behind. -/
def Assembly.retrySecond : Assembly :=
  { nextTemp := 5, exits := [{ label := "bb_12_exit_20", insts := leave (.pc 32) }] }

/-- The second half of a split block, emitted behind the first, goes back to the first or
leaves, as its branch says. -/
theorem Assembly.emit_delivers_retry :
    emit 16 (.ofList [16, 18]) .retrySecond { nextTemp := 2 } =
      .ok (.retrySecond, .retrySecond) ∧
    follow ⟨fun t => if t = 3 then 16 else 1, 0⟩ Assembly.retrySecond.exits
      CodeBlock.retrySecond.insts = some (.goto "bb_10") ∧
    follow ⟨fun t => if t = 3 then 32 else 0, 0⟩ Assembly.retrySecond.exits
      CodeBlock.retrySecond.insts = some (.leave 32) := by
  have hfrom : Block.retrySecond.From .retry :=
    (Block.From.whole (show Block.classify .retry = .ok .retry by decide)).second
      (show Block.retry.split 18 = .ok (.retryFirst, .retrySecond) by decide)
  have hu : Lifted.retry.body.Transfers .condJump := ⟨1, .temp 0, _, _, rfl, rfl, _, _, rfl, rfl⟩
  obtain ⟨code, s', inner, final, hemit, -, -, -, hall⟩ := emit_delivers hfrom hu rfl
    (show emitAll 16 (.ofList [16, 18]) {} [.retryFirst] = .ok (_, { nextTemp := 2 }) from rfl)
    (by decide) (by decide)
  have hcode : emit 16 (.ofList [16, 18]) .retrySecond { nextTemp := 2 } =
      .ok (.retrySecond, .retrySecond) := by decide
  obtain ⟨rfl, rfl⟩ := Prod.mk.inj (Except.ok.inj (hemit.symm.trans hcode))
  refine ⟨hcode, ?_, ?_⟩
  · obtain ⟨target, ht, hfollow⟩ := (hall [] [] _ rfl ⟨fun t => if t = 3 then 16 else 1, 0⟩
      (by unfold Valuation.Respects; decide)).2.2 rfl nofun
    cases ht
    exact hfollow
  · obtain ⟨target, ht, hfollow⟩ := (hall [] [] _ rfl ⟨fun t => if t = 3 then 32 else 0, 0⟩
      (by unfold Valuation.Respects; decide)).2.2 rfl nofun
    cases ht
    exact hfollow

/-- A unit that jumps to itself, where the jump counts as indirect. -/
def Lifted.selfJump : Lifted :=
  { address := 16, size := 2, kind := .jumpIndirect
    body := { insts := [.setPc 16, .branch (.pc 16), .exit], nextTemp := 0 } }

/-- An indirect jump to a literal inside the function leaves the function. -/
theorem literal_jumpIndirect_leaves :
    ∃ b code s', Block.classify .selfJump = .ok b ∧ b.halts = false ∧
      Lifted.selfJump.body.Transfers .jumpIndirect ∧ 16 ∈ b.body.staticTargets ∧
      Assembly.emit 16 (.singleton 16) b {} = .ok (code, s') ∧
      ∀ ρ, follow ρ s'.exits code.insts = some (.leave 16) ∧
        follow ρ s'.exits code.insts ≠ some (.goto (blockLabel 16)) := by
  refine ⟨_, _, _, rfl, by decide, ⟨_, rfl⟩, by decide, rfl, fun ρ => ⟨rfl, ?_⟩⟩
  exact fun h => nomatch h

end FlowRecovery
