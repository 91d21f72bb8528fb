/-
Successors and the edges of emitted code.

The successors of a block are computed once, when its unit is classified; a split hands
them on or replaces them.  Emission finds the targets again, in the body of the block.
Both agree:

* `Bounded`, `From.bounded` — wherever the code of a block goes, that is a successor;
* `Exact`, `From.exact` — and it goes to all of them, if the raw branch of the unit is as
  precise as its kind (`Body.Precise`);
* `MadeOf.leavesFor_iff` — then control leaves the function exactly for the successors
  that are no members;
* `Sound.reaches_blocks` — and since the members are what the successors lead to, every
  block of the function is reached from the first.
-/
import FlowRecovery.Proofs.Assembly.Edges
import FlowRecovery.Proofs.Layout.Closure

namespace FlowRecovery

/-- The literal targets of the raw branch are what is to be expected of the kind, for a unit
that ends at `limit`; a computed target is no literal. -/
def Body.Precise (b : Body) (limit : Addr) : BlockKind → Prop
  | .fallthrough => b.staticTargets = [limit]
  | .jump => ∃ v, b.staticTargets = [v]
  | .condJump => ∃ v, b.staticTargets = [v, limit]
  | .repeatedOp => ∃ v, b.staticTargets = [v, limit]
  | .condJumpIndirect => b.staticTargets = [limit] ∧ ∀ v, b.branchTarget? ≠ some (.pc v)
  | .jumpIndirect => ∀ v, b.branchTarget? ≠ some (.pc v)
  | _ => True

theorem Body.SameEnd.precise {b c : Body} {limit : Addr} {kind : BlockKind} (h : SameEnd b c)
    (hb : b.Precise limit kind) : c.Precise limit kind := by
  unfold Body.Precise at hb ⊢
  rw [h.staticTargets, h.branch]
  exact hb

theorem Lifted.mem_successors {kind : BlockKind} {targets : List Addr} {limit t : Addr} :
    t ∈ Lifted.successors kind targets limit ↔
      (followsBranch kind = true ∧ t ∈ targets) ∨ (kind.fallsThrough = true ∧ t = limit) := by
  unfold Lifted.successors
  cases followsBranch kind <;> cases kind.fallsThrough <;>
    simp [AddrSet.mem_insert, AddrSet.mem_ofList, or_comm]

namespace Block

variable {u : Lifted} {b c first second : Block} {at_ t : Addr}

/-! ### Splits -/

/-- Where control goes depends only on how the block ends. -/
theorem goes_congr (hhalts : c.halts = b.halts) (hkind : c.kind = b.kind) (hstop : c.stop = b.stop)
    (htargets : c.body.staticTargets = b.body.staticTargets) : c.Goes t ↔ b.Goes t := by
  unfold Goes Onward
  rw [hhalts, hkind, hstop, htargets]

/-- The first half goes on at the second. -/
theorem Halves.goes_first (hs : b.Halves at_ first second) (h : b.Sound) :
    first.Goes t ↔ t = at_ := by
  have htargets := Body.staticTargets_of_pc (hs.branchTarget?_first h)
  have honward : first.Onward at_ :=
    Or.inl ⟨Or.inl hs.kind_first, by rw [htargets, List.head?_cons]⟩
  rw [goes_iff_of_not_chooses hs.halts_first honward.not_chooses]
  constructor
  · intro ht
    exact ht.unique honward
  · rintro rfl
    exact honward

/-- The second half goes where the block did. -/
theorem Halves.goes_second (hs : b.Halves at_ first second) (h : b.Sound) :
    second.Goes t ↔ b.Goes t := by
  refine goes_congr hs.halts_second hs.kind_second ?_ (hs.sameEnd h).staticTargets
  show second.address.toNat + second.size.toNat = _
  rw [hs.address_second, hs.stop_second]
  rfl

/-! ### Wherever the code goes is a successor -/

/-- Control goes to successors only. -/
structure Bounded (b : Block) : Prop where
  sound : b.Sound
  successors : ∀ t, b.Goes t → t ∈ b.successors

theorem Bounded.splitStable : Store.SplitStable (fun _ => True) Bounded := by
  intro b at_ first second hb _ hs
  obtain ⟨hfirst, hsecond⟩ := Sound.splitStable hb.sound trivial hs
  refine ⟨⟨hfirst, ?_⟩, ⟨hsecond, ?_⟩⟩
  · intro t ht
    rw [hs.successors_first, (hs.goes_first hb.sound).mp ht]
    exact AddrSet.mem_singleton.mpr rfl
  · intro t ht
    rw [hs.successors_second]
    exact hb.successors t ((hs.goes_second hb.sound).mp ht)

theorem Classified.stop_eq (h : Classified u b) : b.stop = (u.address + u.size).toNat := by
  rw [toNat_add_of_fits h.fits, stop, h.address, h.size]

/-- Units that neither call nor return keep their targets. -/
theorem Classified.staticTargets_eq (h : Classified u b) (hcall : b.kind.isCall = false)
    (hret : b.kind ≠ .ret) : b.body.staticTargets = u.marked.staticTargets := by
  rw [(h.sameEnd hcall hret).staticTargets, u.sameEnd_marked.staticTargets]

theorem Classified.mem_successors (h : Classified u b) (hhalts : b.halts = false) :
    t ∈ b.successors ↔ (Lifted.followsBranch b.kind = true ∧ t ∈ b.body.staticTargets) ∨
      (b.kind.fallsThrough = true ∧ b.stop = t.toNat) := by
  rw [h.successors, hhalts, if_neg Bool.false_ne_true, Lifted.mem_successors, h.stop_eq,
    UInt64.toNat_inj, eq_comm (a := t)]
  refine or_congr_left (and_congr_right fun hfollows => ?_)
  rw [h.staticTargets_eq]
  · revert hfollows
    cases b.kind <;> simp [Lifted.followsBranch, BlockKind.isCall]
  · rintro hk
    rw [hk] at hfollows
    cases hfollows

theorem bounded_of_classify (h : classify u = .ok b) : b.Bounded := by
  have hc := classified_of_classify h
  refine ⟨Sound.of_classified hc, ?_⟩
  rintro t ⟨hhalts, hgoes⟩
  rw [hc.mem_successors hhalts]
  rcases hgoes with (⟨hk | hk, hhead⟩ | ⟨hk | ⟨hk, -⟩, hstop⟩) | ⟨hk | hk, hmem⟩ | ⟨hk, hhead⟩
  · exact Or.inl ⟨by rw [hk]; rfl, List.mem_of_head? hhead⟩
  · exact Or.inl ⟨by rw [hk]; rfl, List.mem_of_head? hhead⟩
  · refine Or.inr ⟨?_, hstop⟩
    revert hk
    cases b.kind <;> simp [BlockKind.isCall, BlockKind.fallsThrough]
  · exact Or.inr ⟨by rw [hk]; rfl, hstop⟩
  · exact Or.inl ⟨by rw [hk]; rfl, hmem⟩
  · exact Or.inl ⟨by rw [hk]; rfl, hmem⟩
  · exact Or.inl ⟨by rw [hk]; rfl, List.mem_of_head? hhead⟩

theorem From.bounded (h : From u b) : b.Bounded :=
  h.inherits Bounded.splitStable fun _ => bounded_of_classify

/-! ### The code goes to every successor -/

/-- Control goes to the successors, and what is not known of it is no literal. -/
structure Exact (b : Block) : Prop where
  sound : b.Sound
  successors : ∀ t, t ∈ b.successors ↔ b.Goes t
  computed : b.kind = .jumpIndirect ∨ b.kind = .condJumpIndirect →
    ∀ v, b.body.branchTarget? ≠ some (.pc v)

theorem Exact.splitStable : Store.SplitStable (fun _ => True) Exact := by
  intro b at_ first second hb _ hs
  obtain ⟨hfirst, hsecond⟩ := Sound.splitStable hb.sound trivial hs
  refine ⟨⟨hfirst, ?_, ?_⟩, ⟨hsecond, ?_, ?_⟩⟩
  · intro t
    rw [hs.successors_first, hs.goes_first hb.sound]
    exact AddrSet.mem_singleton
  · rintro (hk | hk) <;> rw [hs.kind_first] at hk <;> cases hk
  · intro t
    rw [hs.successors_second, hs.goes_second hb.sound]
    exact hb.successors t
  · intro hk
    rw [(hs.sameEnd hb.sound).branch]
    exact hb.computed (by rw [← hs.kind_second]; exact hk)

/-- Classification keeps how precise the raw branch is, also where it makes a call fall
through that only reads the program counter. -/
theorem Classified.precise (h : Classified u b)
    (hu : u.body.Precise (u.address + u.size) u.kind) :
    b.body.Precise (u.address + u.size) b.kind := by
  by_cases hnext : u.kind = .call ∧ u.marked.staticTargets = [u.address + u.size]
  · have hkind : b.kind = .fallthrough := h.kind.trans (if_pos hnext)
    have htargets := h.staticTargets_eq (by rw [hkind]; rfl) (by rw [hkind]; nofun)
    rw [hkind]
    exact htargets.trans hnext.2
  · have hkind : b.kind = u.kind := h.kind.trans (if_neg hnext)
    by_cases hret : b.kind = .ret
    · rw [hret]
      trivial
    · cases hcall : b.kind.isCall with
      | true =>
        revert hcall
        cases b.kind <;> simp [BlockKind.isCall, Body.Precise]
      | false =>
        rw [hkind]
        exact (h.sameEnd hcall hret).precise hu

theorem Classified.goes_of_mem_successors (h : Classified u b)
    (hprecise : b.body.Precise (u.address + u.size) b.kind) (ht : t ∈ b.successors) :
    b.Goes t := by
  cases hhalts : b.halts with
  | true =>
    rw [h.successors, hhalts, if_pos rfl] at ht
    exact absurd ht (AddrSet.not_mem_empty t)
  | false =>
    rw [h.mem_successors hhalts, h.stop_eq, UInt64.toNat_inj] at ht
    -- A successor is a literal target, or lies right behind the block.
    cases hk : b.kind <;>
      simp only [hk, Body.Precise, Lifted.followsBranch, BlockKind.fallsThrough,
        Bool.false_eq_true, false_and, true_and, false_or, or_false, or_self] at ht hprecise
    case fallthrough =>
      refine ⟨hhalts, Or.inl (Or.inl ⟨Or.inl hk, ?_⟩)⟩
      rw [hprecise, List.mem_singleton] at ht
      rw [hprecise, List.head?_cons, ht.elim Eq.symm id]
    case jump =>
      obtain ⟨v, hv⟩ := hprecise
      refine ⟨hhalts, Or.inl (Or.inl ⟨Or.inr hk, ?_⟩)⟩
      rw [hv, List.mem_singleton] at ht
      rw [hv, ht, List.head?_cons]
    case condJumpIndirect =>
      refine ⟨hhalts, Or.inr (Or.inr ⟨hk, ?_⟩)⟩
      rw [hprecise.1, List.mem_singleton] at ht
      rw [hprecise.1, List.head?_cons, ht.elim Eq.symm id]
    case call | callIndirect =>
      have hcall : b.kind.isCall = true := by rw [hk]; rfl
      have hstop : b.stop = t.toNat := h.stop_eq.trans (ht ▸ rfl)
      exact ⟨hhalts, Or.inl (Or.inr ⟨Or.inl hcall, hstop⟩)⟩
    -- The two kinds with a target and the address behind the block.
    all_goals
      obtain ⟨v, hv⟩ := hprecise
      refine (goes_iff_of_between hhalts (by simp [hk])).mpr (ht.elim id ?_)
      rintro rfl
      rw [hv]
      exact List.mem_cons_of_mem _ List.mem_cons_self

theorem exact_of_classify (hu : u.body.Precise (u.address + u.size) u.kind)
    (h : classify u = .ok b) : b.Exact := by
  have hc := classified_of_classify h
  have hprecise := hc.precise hu
  have hbounded := bounded_of_classify h
  refine ⟨hbounded.sound, fun t => ⟨hc.goes_of_mem_successors hprecise, hbounded.successors t⟩, ?_⟩
  rintro (hk | hk) <;> rw [hk] at hprecise
  · exact hprecise
  · exact hprecise.2

theorem From.exact (hu : u.body.Precise (u.address + u.size) u.kind) (h : From u b) : b.Exact :=
  h.inherits Exact.splitStable fun _ => exact_of_classify hu

end Block

/-! ### The members and the rest -/

/-- The code leaves the function for the address: by itself, or through one of the given
blocks, which it names. -/
def CodeBlock.LeavesFor (exits : List CodeBlock) (c : CodeBlock) (v : Addr) : Prop :=
  .jumpMarker (.pc v) ∈ c.insts ∨
    ∃ e ∈ exits, e.label ∈ c.targets ∧ .jumpMarker (.pc v) ∈ e.insts

theorem Operand.eq_pc_of_mapTemp {f : Temp → Temp} {o : Operand} {v : Addr}
    (h : o.mapTemp f = .pc v) : o = .pc v := by
  cases o with
  | pc w => exact h
  | _ => cases h

namespace Assembly

theorem mem_leave {target : Operand} {v : Addr} :
    .jumpMarker (.pc v) ∈ leave target ↔ target = .pc v := by
  simp [leave, eq_comm]

theorem not_computed {b : Block} {base : Temp} (h : ∀ v, b.body.branchTarget? ≠ some (.pc v))
    (v : Addr) : b.body.branchTarget?.map (Operand.mapTemp (· + base)) ≠ some (.pc v) := by
  intro hmap
  obtain ⟨o, ho, hpc⟩ := Option.map_eq_some_iff.mp hmap
  exact h v (by rw [ho, Operand.eq_pc_of_mapTemp hpc])

end Assembly

namespace Func.MadeOf

open Assembly

variable {f : Func} {entry : Addr} {members : AddrSet} {blocks : List Block}
  {codes : List CodeBlock} {last s s' : Assembly} {b : Block} {code : CodeBlock}

/-- The exit that is named for an arm leaves for the target of the arm. -/
theorem exit_of_exitLabel (h : f.MadeOf entry members blocks codes last) {e : CodeBlock}
    (he : e ∈ last.exits) {a v : Addr} (hlabel : e.label = exitLabel a v) :
    e.insts = leave (.pc v) := by
  obtain ⟨source, branch, hdep⟩ := allDepart_of_emitAll h.emitted e he
  cases hdep with
  | known target => rw [(exitLabel_inj.mp hlabel).2]
  | computed htarget => exact absurd hlabel.symm (exitLabel_ne_indirectLabel _ _ _)

/-- Through an exit that is named for the block control leaves for a successor. -/
theorem goes_of_exit (h : f.MadeOf entry members blocks codes last) (hb : b ∈ blocks)
    (hexact : b.Exact) (hemit : emit entry members b s = .ok (code, s')) {e : CodeBlock}
    (he : e ∈ last.exits) (hnamed : e.label ∈ code.targets) {v : Addr}
    (hmarker : .jumpMarker (.pc v) ∈ e.insts) : b.Goes v ∧ v ∉ members := by
  have hlabels := (mem_targets_emit hexact.sound hemit e.label).mp hnamed
  obtain ⟨b', hb', _, _, s₁, _, _, _, ⟨hdep, _⟩⟩ := h.exit_of_mem he
  cases hdep with
  | known target =>
    obtain ⟨-, hgoes, hmem⟩ := hlabels.of_exitLabel
    cases mem_leave.mp hmarker
    exact ⟨hgoes, hmem⟩
  | computed htarget =>
    -- The exit is there for the block itself, whose branch is no literal.
    obtain ⟨haddress, hk⟩ := hlabels.of_indirectLabel
    obtain rfl := List.inj_on_of_nodup_map h.nodup hb' hb haddress
    rw [mem_leave.mp hmarker] at htarget
    exact absurd htarget (not_computed (hexact.computed (Or.inr hk)) v)

theorem leavesFor_iff (h : f.MadeOf entry members blocks codes last) (hb : b ∈ blocks)
    (hexact : b.Exact) (hcode : code ∈ codes) (hemit : emit entry members b s = .ok (code, s'))
    (v : Addr) : code.LeavesFor last.exits v ↔ v ∈ b.successors ∧ v ∉ members := by
  rw [hexact.successors]
  constructor
  · rintro (hmarker | ⟨e, he, hnamed, hmarker⟩)
    · rcases (jumpMarker_mem_emit hexact.sound hemit _).mp hmarker with
        ⟨-, w, hgoes, hmem, hpc⟩ | ⟨-, hk, hbranch⟩
      · cases hpc
        exact ⟨hgoes, hmem⟩
      · exact absurd hbranch (not_computed (hexact.computed (Or.inl hk)) v)
    · exact h.goes_of_exit hb hexact hemit he hnamed hmarker
  · rintro ⟨hgoes, hmem⟩
    cases hc : b.chooses with
    | false => exact Or.inl ((jumpMarker_mem_emit hexact.sound hemit _).mpr
        (Or.inl ⟨hc, v, hgoes, hmem, rfl⟩))
    | true =>
      have hnamed : exitLabel b.address v ∈ code.targets :=
        (mem_targets_emit hexact.sound hemit _).mpr (.outside hgoes hmem hc)
      -- Every label that is named has a block; this one is no member's.
      obtain ⟨i, hi, hl⟩ := List.mem_flatMap.mp hnamed
      have hlabel := (emission_emitAll h.sound h.emitted).targets i
        (List.mem_flatMap.mpr ⟨code, hcode, hi⟩) _ hl
      obtain ⟨e, he, heq⟩ := List.mem_map.mp (hlabel.resolve_left (by
        rintro ⟨a, -, ha⟩
        exact blockLabel_ne_exitLabel a b.address v ha.symm))
      refine Or.inr ⟨e, he, heq ▸ hnamed, ?_⟩
      rw [h.exit_of_exitLabel he heq]
      exact List.mem_cons_self

end Func.MadeOf

theorem Assembly.blockLabel_mem_iff {entry : Addr} {members : AddrSet} {b : Block}
    {s s' : Assembly} {code : CodeBlock} (hexact : b.Exact)
    (hemit : emit entry members b s = .ok (code, s')) (a : Addr) :
    blockLabel a ∈ code.targets ↔ a ∈ b.successors ∧ a ∈ members := by
  rw [mem_targets_emit hexact.sound hemit, hexact.successors]
  exact ⟨fun h => h.of_blockLabel, fun h => .inside h.1 h.2⟩

/-! ### Every block is reached -/

namespace Store

open Assembly

variable {s : Store} {naming : Naming} {entries : AddrSet} {entry : Addr} {f : Func}

/-- A function starts with the code of the block at its entry. -/
theorem Sound.head_blocks (hs : s.Sound) (h : s.assemble naming entries entry = .ok f) :
    ∃ first, f.blocks.head? = some first ∧ first.label = blockLabel entry := by
  obtain ⟨b, codes, last, hget, hemit, hblocks⟩ := exists_of_assemble h
  rw [functionBlocks_eq hget] at hemit
  obtain ⟨⟨first, s₁⟩, hfirst, hemit⟩ := Checked.bind_eq_ok.mp hemit
  obtain ⟨⟨rest, s₂⟩, -, hemit⟩ := Checked.bind_eq_ok.mp hemit
  cases hemit
  refine ⟨first, by rw [hblocks]; rfl, ?_⟩
  rw [label_of_emit hfirst, hs.keyed entry b hget]

/-- In a function whose blocks go to all their successors, every block is reached from the
first one. -/
theorem Sound.reaches_blocks (hs : s.Sound) (hexact : ∀ k b, s.get? k = some b → b.Exact)
    (h : s.assemble naming entries entry = .ok f) :
    ∃ first, f.blocks.head? = some first ∧
      ∀ c ∈ f.blocks, Relation.ReflTransGen f.Goes first c := by
  obtain ⟨first, hhead, hentry⟩ := hs.head_blocks h
  obtain ⟨codes, last, hmade⟩ := hs.madeOf h
  have hcodes : ∀ code ∈ codes, code ∈ f.blocks := fun code hcode => by
    rw [hmade.blocks_eq]
    exact List.mem_append_left _ hcode
  -- Along the edges inside the function, from member to member.
  have hmembers : ∀ a ∈ s.closure entries entry, ∀ c ∈ f.blocks, c.label = blockLabel a →
      Relation.ReflTransGen f.Goes first c := by
    intro a ha
    obtain ⟨hstored, hchain⟩ := mem_closure_iff.mp ha
    clear ha
    induction hchain with
    | refl =>
      intro c hc hlabel
      obtain rfl := hmade.eq_of_label (List.mem_of_head? hhead) hc (hentry.trans hlabel.symm)
      exact .refl
    | @tail x y hchain hstep ih =>
      intro c hc hlabel
      have hx : x ∈ s.closure entries entry := mem_closure_iff.mpr ⟨hstored, hchain⟩
      have hy := mem_closure_of_within hx hstep
      obtain ⟨b, hb, hwithin⟩ := hstep
      obtain ⟨code, hcode, s₁, s₂, hemit⟩ :=
        (emitted_of_emitAll hmade.emitted).2 b (mem_functionBlocks.mpr ⟨x, hx, hb⟩)
      have hlabel' : code.label = blockLabel x := by rw [label_of_emit hemit, hs.keyed x b hb]
      refine (ih code (hcodes code hcode) hlabel').tail ⟨hc, ?_⟩
      rw [hlabel, blockLabel_mem_iff (hexact x b hb) hemit]
      exact ⟨(mem_within.mp hwithin).1, hy⟩
  have hreach : ∀ code ∈ codes, Relation.ReflTransGen f.Goes first code := by
    intro code hcode
    obtain ⟨b, hb, s₁, s₂, -, hemit⟩ := hmade.code_of_mem hcode
    obtain ⟨a, ha, hget⟩ := mem_functionBlocks.mp hb
    refine hmembers a ha code (hcodes code hcode) ?_
    rw [label_of_emit hemit, hs.keyed a b hget]
  refine ⟨first, hhead, ?_⟩
  intro c hc
  have hcases := hc
  rw [hmade.blocks_eq, List.mem_append] at hcases
  rcases hcases with hcode | hexit
  · exact hreach c hcode
  · obtain ⟨_, _, code, hcode, _, _, _, _, hserves⟩ := hmade.exit_of_mem hexit
    exact (hreach code hcode).tail ⟨hc, hserves.named⟩

end Store

end FlowRecovery
