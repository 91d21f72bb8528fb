/-
What the check of a resolved module can find.

Resolution ends with a check of the whole module.  For functions that were assembled from code
without references most of it is settled beforehand.  Functions are rewritten in place, so they
stay well formed; a reference into a section is made for an address inside the section, whose
global is found under its name if no two sections start at one address; and what is called is
a function that is known, or a wrapper that has been made.  All that is left are the names of
functions and wrappers: the check fails exactly if one of them comes twice.

* `Func.Resolves.wellFormed`, `Resolver.IsWrapper.wellFormed` — all functions are well formed;
* `Image.global?_eq`, `Operand.Resolves.refers` — references lead into the globals of sections;
* `Resolver.known_resolveCalls` — what is called is there;
* `Module.Linked.verify_eq` — then the check is the search for a name that comes twice;
* `Store.BuiltOf.verify_exact` — the whole of it, for assembled functions.
-/
import FlowRecovery.Proofs.Assembly.Operands
import FlowRecovery.Proofs.Image.Sections
import FlowRecovery.Proofs.Resolution.Calls

namespace FlowRecovery

/-! ### Functions stay well formed -/

theorem EndsOnce.of_map_eq {l l' : List Inst}
    (h : l'.map Inst.isTerminator = l.map Inst.isTerminator) (hl : EndsOnce l) : EndsOnce l' := by
  obtain ⟨code, last, rfl, hlast, hcode⟩ := hl
  rw [List.map_append] at h
  obtain ⟨code', rest, rfl, hcode', hrest⟩ := List.map_eq_append_iff.mp h
  obtain ⟨last', rfl, hlast'⟩ := List.map_eq_singleton_iff.mp hrest
  refine ⟨code', last', rfl, hlast'.trans hlast, fun i hi => ?_⟩
  have hmem : i.isTerminator ∈ code'.map Inst.isTerminator := List.mem_map_of_mem hi
  rw [hcode'] at hmem
  obtain ⟨j, hj, heq⟩ := List.mem_map.mp hmem
  rw [← heq, hcode j hj]

namespace Inst

theorem isTerminator_setOperands (i : Inst) (operands : List Operand) :
    (i.setOperands operands).isTerminator = i.isTerminator := by
  unfold setOperands
  split <;> rfl

theorem isRaw_setOperands (i : Inst) (operands : List Operand) :
    (i.setOperands operands).isRaw = i.isRaw := by
  unfold setOperands
  split <;> rfl

theorem targets_setOperands (i : Inst) (operands : List Operand) :
    (i.setOperands operands).targets = i.targets := by
  unfold setOperands
  split <;> rfl

namespace Resolves

variable {r : Resolver} {i j : Inst}

theorem def?_eq (h : i.Resolves r j) : j.def? = i.def? := by
  cases h with
  | kept _ _ => exact def?_setOperands i _
  | called _ _ => rfl

theorem isTerminator_eq (h : i.Resolves r j) : j.isTerminator = i.isTerminator := by
  cases h with
  | kept _ _ => exact isTerminator_setOperands i _
  | called _ _ => rfl

theorem isRaw_eq (h : i.Resolves r j) : j.isRaw = i.isRaw := by
  cases h with
  | kept _ _ => exact isRaw_setOperands i _
  | called _ _ => rfl

theorem targets_eq (h : i.Resolves r j) : j.targets = i.targets := by
  cases h with
  | kept _ _ => exact targets_setOperands i _
  | called _ _ => rfl

theorem uses_subset (h : i.Resolves r j) : j.uses ⊆ i.uses := by
  intro t ht
  obtain ⟨o', ho', htemp⟩ := List.mem_filterMap.mp ht
  obtain ⟨o, ho, hresolves⟩ := h.exists_operand ho'
  exact List.mem_filterMap.mpr ⟨o, ho, hresolves.temp?_eq.symm.trans htemp⟩

end Resolves

end Inst

theorem CodeBlock.Resolves.closed {r : Resolver} {b b' : CodeBlock} (h : b.Resolves r b')
    {labels : List String} (hb : b.Closed labels) : b'.Closed labels := by
  refine ⟨hb.ending.of_map_eq (map_eq_of_forall₂ (fun _ _ hij => hij.isTerminator_eq) h.insts),
    fun j hj => ?_, fun j hj => ?_⟩
  · obtain ⟨i, hi, hij⟩ := exists_mem_of_forall₂ h.insts hj
    rw [hij.isRaw_eq]
    exact hb.noRaw i hi
  · obtain ⟨i, hi, hij⟩ := exists_mem_of_forall₂ h.insts hj
    rw [hij.targets_eq]
    exact hb.targets i hi

namespace Func.Resolves

variable {r : Resolver} {f f' : Func}

/-- A function that is rewritten in place stays well formed. -/
theorem wellFormed (h : f.Resolves r f') (hf : f.WellFormed) : f'.WellFormed := by
  have hlabels : f'.labels = f.labels := map_eq_of_forall₂ (fun _ _ hb => hb.label) h.blocks
  have hdefs : definitions f'.insts = definitions f.insts := by
    have hmap := map_eq_of_forall₂ (fun _ _ hij => Inst.Resolves.def?_eq hij) h.insts
    have hfilter := congrArg (List.filterMap id) hmap
    rwa [List.filterMap_map, List.filterMap_map] at hfilter
  refine ⟨fun hnil => ?_, hlabels ▸ hf.labels, fun b' hb' => ?_, hdefs ▸ hf.nodup,
    fun j hj t ht => ?_, fun t ht => ?_⟩
  · have hblocks := h.blocks
    rw [hnil] at hblocks
    exact hf.blocks_ne (List.forall₂_nil_right_iff.mp hblocks)
  · obtain ⟨b, hb, hbb'⟩ := exists_mem_of_forall₂ h.blocks hb'
    rw [hlabels]
    exact hbb'.closed (hf.closed b hb)
  · obtain ⟨i, hi, hij⟩ := exists_mem_of_forall₂ h.insts hj
    rw [hdefs]
    exact hf.reads i hi t (hij.uses_subset ht)
  · rw [h.nextTemp]
    exact hf.range t (hdefs ▸ ht)

end Func.Resolves

namespace Resolver

variable {r : Resolver} {slot : Addr} {w : Func}

/-- All wrappers are wrappers of imports. -/
theorem exists_isWrapper {code : List Func}
    (h : (r.resolveCalls code).state.wrappers.get? slot = some w) : ∃ i, r.IsWrapper slot w i := by
  obtain ⟨slots, hslots⟩ := r.exists_wrapAll_eq code
  rw [hslots] at h
  exact ((get?_foldl_wrap h).resolve_left nofun).2

namespace IsWrapper

variable {i : Import}

theorem insts_eq (h : r.IsWrapper slot w i) :
    w.insts = [.importCall i.name i.library r.image.convention, .ret] := by
  rw [Func.insts, h.blocks]
  rfl

/-- A wrapper neither reads nor calls anything that has to be found. -/
theorem of_mem (h : r.IsWrapper slot w i) {j : Inst} (hj : j ∈ w.insts) :
    j.operands = [] ∧ j.callee? = none ∧ j.isCallMarker = false := by
  rw [h.insts_eq] at hj
  rcases List.mem_pair.mp hj with rfl | rfl <;> exact ⟨rfl, rfl, rfl⟩

theorem wellFormed (h : r.IsWrapper slot w i) : w.WellFormed := by
  have hdefs : definitions w.insts = [] := by
    rw [h.insts_eq]
    rfl
  refine ⟨?_, ?_, fun b hb => ?_, ?_, fun j hj t ht => ?_, fun t ht => ?_⟩
  · rw [h.blocks]
    exact List.cons_ne_nil _ _
  · rw [Func.labels, h.blocks]
    exact List.nodup_singleton _
  · rw [h.blocks, List.mem_singleton] at hb
    subst hb
    refine ⟨⟨[_], .ret, rfl, rfl, ?_⟩, ?_, ?_⟩
    all_goals simp [Inst.isTerminator, Inst.isRaw, Inst.branch?, Inst.targets]
  · rw [hdefs]
    exact .nil
  · rw [Inst.uses, (h.of_mem hj).1] at ht
    cases ht
  · rw [hdefs] at ht
    cases ht

end IsWrapper

end Resolver

/-! ### References -/

/-- What the operand refers to is in the module: a place in the data of a section is a place in
the global of that name. -/
def Operand.Refers (m : Module) : Operand → Prop
  | .dataRef global offset address => ∃ g, m.global? global = some g ∧ offset < g.size ∧
      g.address.toNat + offset.toNat = address.toNat
  | _ => True

/-- What is called is in the module. -/
def Callee.Refers (m : Module) : Callee → Prop
  | .function name address => ∃ f ∈ m.functions, f.name = name ∧ f.address = address
  | .imported name _ slot => ∃ w ∈ m.wrappers, w.name = name ∧ w.address = slot
  | .indirect _ => True

theorem Section.globalName_eq (s : Section) :
    s.globalName = withSlot (plainName s.name ++ "_global") s.address := by
  have hmiddle : "_global_" = "_global" ++ "_" := rfl
  rw [globalName, withSlot, hmiddle, String.append_assoc, String.append_assoc, String.append_assoc,
    String.append_assoc]

/-- The global of a section is found under its name. -/
theorem Image.global?_eq {image : Image} (h : (image.sections.map (·.address)).Nodup)
    {s : Section} (hs : s ∈ image.sections) :
    image.globals.find? (·.name == s.globalName) = some s.global := by
  rw [globals, List.find?_map]
  cases hfound : image.sections.find? ((·.name == s.globalName) ∘ Section.global) with
  | none => exact absurd BEq.rfl (List.find?_eq_none.mp hfound s hs)
  | some t =>
    have hfind := List.find?_some hfound
    have hname : t.globalName = s.globalName := eq_of_beq hfind
    rw [Section.globalName_eq, Section.globalName_eq] at hname
    rw [List.inj_on_of_nodup_map h (List.mem_of_find?_eq_some hfound) hs
      (eq_of_withSlot_eq hname), Option.map_some]

/-- The reference that is put in the place of a number leads into the global of its section. -/
theorem Operand.Resolves.refers {r : Resolver} {m : Module} {o o' : Operand}
    (h : o.Resolves r o') (hplain : o.isPlain = true)
    (hsections : (r.image.sections.map (·.address)).Nodup) (hm : m.globals = r.image.globals) :
    o'.Refers m := by
  cases h with
  | kept _ =>
    cases o with
    | dataRef _ _ _ => cases hplain
    | _ => trivial
  | replaced hclass _ =>
    unfold Resolver.classify at hclass
    split at hclass
    · cases hclass
      trivial
    · split at hclass
      · cases hclass
        trivial
      · obtain ⟨s, hs, rfl⟩ := Option.map_eq_some_iff.mp hclass
        obtain ⟨hoffset, haddress⟩ :=
          Section.offset_of_contains (Image.contains_of_sectionAt? hs)
        refine ⟨s.global, ?_, hoffset, haddress⟩
        rw [Module.global?, hm]
        exact Image.global?_eq hsections (List.mem_of_find?_eq_some hs)

/-! ### Calls -/

/-- What is called is known: a function by its entry, an import by the wrapper at its slot. -/
def Callee.Known (r : Resolver) (wrappers : AddrMap Func) : Callee → Prop
  | .function name address => r.functions.get? address = some name
  | .imported name _ slot => ∃ w, wrappers.get? slot = some w ∧ w.name = name
  | .indirect _ => True

/-- Everything that the code calls is known. -/
def CallsKnown (r : Resolver) (wrappers : AddrMap Func) (insts : List Inst) : Prop :=
  ∀ i ∈ insts, ∀ callee, i.callee? = some callee → callee.Known r wrappers

namespace Resolver

variable {r : Resolver} {final : AddrMap Func}

theorem Leads.known {scan : CallScan} {target : Operand} {isStatic : Bool} {callee : Callee}
    {wrappers : AddrMap Func} (h : r.Leads scan target isStatic callee wrappers)
    (hend : Extends wrappers final) : callee.Known r final := by
  cases h with
  | function h => exact h
  | stub _ _ _ hw => exact ⟨_, hend _ _ hw, rfl⟩
  | loaded _ _ hw => exact ⟨_, hend _ _ hw, rfl⟩
  | indirect _ => trivial

/-- A step calls what is known, with the wrappers behind it. -/
theorem known_resolveInst {scan : CallScan} {i : Inst} (hi : i.callee? = none)
    (h : (r.resolveInst scan i).stop = none)
    (hend : Extends (r.resolveInst scan i).state.calls.wrappers final) :
    ∀ callee, (r.resolveInst scan i).value.callee? = some callee → callee.Known r final := by
  intro callee hcallee
  obtain ⟨-, ⟨-, hvalue, -⟩ | ⟨_, _, _, _, _, -, hleads, hvalue, hcalls⟩⟩ := resolveInst_cases h
  · rw [hvalue, hi] at hcallee
    cases hcallee
  · rw [hvalue] at hcallee
    cases hcallee
    rw [hcalls, wrappers_tally, ← hleads.wrappers_eq] at hend
    exact hleads.known hend

/-- A run that is not stopped calls what is known. -/
theorem known_resolveCalls {code : List Func} (hcode : ∀ f ∈ code, ∀ i ∈ f.insts, i.callee? = none)
    (h : (r.resolveCalls code).stop = none) : ∀ f ∈ (r.resolveCalls code).value,
      CallsKnown r (r.resolveCalls code).state.wrappers f.insts := by
  generalize hfinal : (r.resolveCalls code).state.wrappers = final
  have hblock : ∀ a calls b, (∀ i ∈ b.insts, i.callee? = none) →
      (r.resolveBlock a calls b).stop = none →
      Extends (r.resolveBlock a calls b).state.wrappers final →
      CallsKnown r final (r.resolveBlock a calls b).value.insts := by
    intro a calls b hb hstop hend j hj
    have hall := forall₂_of_growing_sweep (P := fun i => i.callee? = none)
      (B := fun scan => Extends scan.calls.wrappers final)
      (R := fun _ j => ∀ callee, j.callee? = some callee → callee.Known r final)
      (fun scan i h => (extends_resolveInst scan i).trans h)
      (fun _ _ hi hstop hend => known_resolveInst hi hstop hend) hb hstop hend
    exact (exists_mem_of_forall₂ hall hj).elim fun _ hij => hij.2
  have hfunc : ∀ calls f, (∀ i ∈ f.insts, i.callee? = none) →
      (r.resolveFunc calls f).stop = none →
      Extends (r.resolveFunc calls f).state.wrappers final →
      CallsKnown r final (r.resolveFunc calls f).value.insts := by
    intro calls f hf hstop hend j hj
    have hall := forall₂_of_growing_sweep (P := fun b => ∀ i ∈ b.insts, i.callee? = none)
      (B := fun calls => Extends calls.wrappers final)
      (R := fun _ b' => CallsKnown r final b'.insts)
      (fun calls b h => (extends_resolveBlock f.address calls b).trans h)
      (fun calls b hb hstop hend => hblock f.address calls b hb hstop hend)
      (fun b hb i hi => hf i (List.mem_flatMap.mpr ⟨b, hb, hi⟩)) hstop hend
    obtain ⟨b', hb', hj⟩ := List.mem_flatMap.mp hj
    exact (exists_mem_of_forall₂ hall hb').elim fun _ hb => hb.2 j hj
  have hall := forall₂_of_growing_sweep (P := fun f => ∀ i ∈ f.insts, i.callee? = none)
    (B := fun calls => Extends calls.wrappers final)
    (R := fun _ f' => CallsKnown r final f'.insts)
    (fun calls f h => (extends_resolveFunc calls f).trans h)
    (fun calls f hf hstop hend => hfunc calls f hf hstop hend) hcode h
    (by rw [← hfinal]; exact fun _ _ h => h)
  exact fun f hf => (exists_mem_of_forall₂ hall hf).elim fun _ hff => hff.2

end Resolver

/-! ### The check of the module -/

namespace Module

variable {m : Module}

/-- All that the check asks of a module but for its names: functions are well formed, no call is
left to be resolved, and what the code refers to is there. -/
structure Linked (m : Module) : Prop where
  wellFormed : ∀ f ∈ m.allFunctions, f.WellFormed
  noMarker : ∀ f ∈ m.allFunctions, ∀ i ∈ f.insts, i.isCallMarker = false
  operands : ∀ f ∈ m.allFunctions, ∀ i ∈ f.insts, ∀ o ∈ i.operands, o.Refers m
  callees : ∀ f ∈ m.allFunctions, ∀ i ∈ f.insts, ∀ callee, i.callee? = some callee →
    callee.Refers m

/-- The check of well-formed functions looks for a name that comes again. -/
theorem checkFunctions_eq {l : List Func} (h : ∀ f ∈ l, f.WellFormed) (names : List String) :
    checkFunctions names l =
      match firstRepeat? names (l.map (·.name)) with
      | none => .ok ()
      | some name => .error (.module (.duplicateFunction name)) := by
  induction l generalizing names with
  | nil => rfl
  | cons f l ih =>
    obtain ⟨hf, h⟩ := List.forall_mem_cons.mp h
    rw [checkFunctions, Func.verify_eq_ok.mpr hf, List.map_cons, firstRepeat?]
    by_cases hmem : f.name ∈ names
    · simp only [hmem, if_true]
      rfl
    · simp only [hmem, if_false]
      exact ih h (f.name :: names)

theorem checkCall_of_refers {i : Inst} (hmarker : i.isCallMarker = false)
    (hcallee : ∀ callee, i.callee? = some callee → callee.Refers m) : m.checkCall i = .ok () := by
  refine checkCall_eq_ok.mpr ⟨?_, ?_⟩
  · rintro target isStatic state rfl
    cases hmarker
  · intro name hname
    cases hname with
    | function =>
      obtain ⟨f, hf, hname, -⟩ := hcallee _ rfl
      exact ⟨f, List.mem_append_left _ hf, hname⟩
    | wrapper =>
      obtain ⟨w, hw, hname, -⟩ := hcallee _ rfl
      exact ⟨w, List.mem_append_right _ hw, hname⟩

theorem checkOperand_of_refers {o : Operand} (h : o.Refers m) : m.checkOperand o = .ok () := by
  refine checkOperand_eq_ok.mpr ?_
  rintro global offset address rfl
  obtain ⟨g, hg, hoffset, -⟩ := h
  refine ⟨g, hg, ?_⟩
  show offset < if g.size ≤ 1 then 1 else g.size
  split
  · next hle => exact UInt64.lt_of_lt_of_le hoffset hle
  · exact hoffset

namespace Linked

/-- The check of a linked module looks for a name that comes again. -/
theorem verify_eq (h : m.Linked) :
    m.verify =
      match firstRepeat? [] (m.allFunctions.map (·.name)) with
      | none => .ok ()
      | some name => .error (.module (.duplicateFunction name)) := by
  rw [verify, checkFunctions_eq h.wellFormed]
  cases firstRepeat? [] (m.allFunctions.map (·.name)) with
  | some name => rfl
  | none =>
    refine forM_eq_ok.mpr fun f hf => forM_eq_ok.mpr fun i hi => ?_
    have hcall := checkCall_of_refers (h.noMarker f hf i hi) (h.callees f hf i hi)
    have hoperands : i.operands.forM m.checkOperand = .ok () :=
      forM_eq_ok.mpr fun o ho => checkOperand_of_refers (h.operands f hf i hi o ho)
    exact Checked.mapError_eq_ok.mpr (seq_eq_ok.mpr ⟨hcall, hoperands⟩)

theorem verify_eq_ok (h : m.Linked) :
    m.verify = .ok () ↔ (m.allFunctions.map (·.name)).Nodup := by
  rw [h.verify_eq, ← firstRepeat?_nil_eq_none]
  cases firstRepeat? [] (m.allFunctions.map (·.name)) <;> simp

theorem verify_eq_error (h : m.Linked) {e : VerifyError} (he : m.verify = .error e) :
    ∃ name, e = .module (.duplicateFunction name) := by
  rw [h.verify_eq] at he
  split at he
  · cases he
  · next name _ => exact ⟨name, (Except.error.inj he).symm⟩

end Linked

end Module

/-- The module behind both passes, if neither is stopped. -/
def Module.rewritten (m : Module) (image : Image) (store : Store) : Module :=
  let r := Resolver.ofModule image store m
  let called := r.resolveCalls (m.functions.map r.replaceInFunc)
  { m with
    globals := image.globals
    functions := called.value
    wrappers := called.state.wrappers.values }

/-- What is left when both passes go through is the check. -/
theorem Module.exists_resolve_eq {m : Module} {image : Image} {store : Store}
    (hpatched : ((Resolver.ofModule image store m).patchAll {} m.functions
      image.relocations).stop = none)
    (hcalled : ((Resolver.ofModule image store m).resolveCalls
      (m.functions.map (Resolver.ofModule image store m).replaceInFunc)).stop = none) :
    ∃ stats, m.resolve image store = (m.rewritten image store,
      (Checked.lift ((m.rewritten image store).verify.mapError .verify)).map fun _ => stats) := by
  simp only [Module.resolve, hpatched, Resolver.map_replaceInFunc_patchAll, hcalled]
  exact ⟨_, rfl⟩

/-- A module that is refused by the check has gone through both passes. -/
theorem Module.verify_of_resolve {m : Module} {image : Image} {store : Store} (hs : store.Sound)
    {e : VerifyError} (h : (m.resolve image store).2 = .error (.refused (.verify e))) :
    ((Resolver.ofModule image store m).resolveCalls
      (m.functions.map (Resolver.ofModule image store m).replaceInFunc)).stop = none ∧
    (m.rewritten image store).verify = .error e := by
  cases hpatched : ((Resolver.ofModule image store m).patchAll {} m.functions
      image.relocations).stop with
  | some stop =>
    simp only [Module.resolve, hpatched] at h
    cases h
    obtain ⟨site, value, hvalue | hvalue⟩ := Resolver.stop_patchAll hs hpatched <;> cases hvalue
  | none =>
    cases hcalled : ((Resolver.ofModule image store m).resolveCalls
        (m.functions.map (Resolver.ofModule image store m).replaceInFunc)).stop with
    | some stop =>
      simp only [Module.resolve, hpatched, Resolver.map_replaceInFunc_patchAll, hcalled] at h
      cases h
      obtain ⟨f, -, target, state, site, -, -, hvalue⟩ := Resolver.stop_resolveCalls hs hcalled
      cases hvalue
    | none =>
      obtain ⟨stats, hresolve⟩ := Module.exists_resolve_eq hpatched hcalled
      rw [hresolve] at h
      obtain ⟨reason, hverify, hreason⟩ := Checked.map_lift_eq_error h
      cases hreason
      obtain ⟨fault, hfault, heq⟩ := exists_of_mapError hverify
      cases heq
      exact ⟨rfl, hfault⟩

/-! ### Assembled functions -/

namespace Store.BuiltOf

variable {store : Store} {naming : Naming} {entries : AddrSet} {assembled : List (Func × Layout)}
  {m : Module} {image : Image}

section Rewritten

variable (ha : store.assembleAll naming entries = .ok assembled)
  (hm : m.functions = assembled.map (·.1))
  (hcalled : ((Resolver.ofModule image store m).resolveCalls
    (m.functions.map (Resolver.ofModule image store m).replaceInFunc)).stop = none)

include ha hm

theorem exists_assemble {f : Func} (hf : f ∈ m.functions) :
    ∃ a, store.assemble naming entries a = .ok f := by
  rw [hm] at hf
  obtain ⟨a, -, hassemble⟩ := exists_mem_of_forall₂ (forall₂_assembleAll ha) hf
  exact ⟨a, hassemble⟩

theorem noCall_replaceInFunc (hs : store.Sound) (r : Resolver) :
    ∀ f ∈ m.functions.map r.replaceInFunc, ∀ i ∈ f.insts, i.callee? = none := by
  intro f' hf' i' hi'
  obtain ⟨f, hf, rfl⟩ := List.mem_map.mp hf'
  obtain ⟨a, hassemble⟩ := exists_assemble ha hm hf
  obtain ⟨codes, last, hmade⟩ := hs.madeOf hassemble
  rw [r.insts_replaceInFunc] at hi'
  obtain ⟨i, hi, rfl⟩ := List.mem_map.mp hi'
  exact Inst.callee?_mapOperands (hmade.noCall i hi)

include hcalled

/-- What is known is in the module. -/
theorem refers_of_known (hs : store.Sound) {callee : Callee}
    (h : callee.Known (.ofModule image store m) ((Resolver.ofModule image store m).resolveCalls
      (m.functions.map (Resolver.ofModule image store m).replaceInFunc)).state.wrappers) :
    callee.Refers (m.rewritten image store) := by
  cases callee with
  | function name address =>
    obtain ⟨hmem, rfl⟩ := (Resolver.functions_get?_eq_some hs ha hm).mp h
    have hpair : (address, naming.name address) ∈ m.functions.map fun f => (f.address, f.name) := by
      rw [hm, hs.names_assembleAll ha]
      exact List.mem_map_of_mem (AddrSet.mem_def.mp hmem)
    obtain ⟨f, hf, heq⟩ := List.mem_map.mp hpair
    obtain ⟨rfl, hname⟩ := Prod.mk.inj heq
    obtain ⟨f', hf', hff'⟩ :=
      exists_mem_of_forall₂ (Resolver.forall₂_resolveCalls hcalled).flip hf
    exact ⟨f', hf', hff'.name.trans hname, hff'.address⟩
  | imported name importName slot =>
    obtain ⟨w, hw, rfl⟩ := h
    obtain ⟨i, hi⟩ := Resolver.exists_isWrapper hw
    exact ⟨w, AddrMap.mem_values.mpr ⟨slot, hw⟩, rfl, hi.address⟩
  | indirect target => trivial

/-- The module behind both passes is linked. -/
theorem linked_rewritten (hs : store.BuiltOf fun u => Plain u.body.insts)
    (hsections : (image.sections.map (·.address)).Nodup) : (m.rewritten image store).Linked := by
  have hsound := hs.sound
  -- Every function comes from one that was assembled, and all others are wrappers.
  have hfunction : ∀ f' ∈ (m.rewritten image store).functions,
      ∃ f a, f.Resolves (.ofModule image store m) f' ∧ store.assemble naming entries a = .ok f := by
    intro f' hf'
    obtain ⟨f, hf, hff'⟩ := exists_mem_of_forall₂ (Resolver.forall₂_resolveCalls hcalled) hf'
    obtain ⟨a, hassemble⟩ := exists_assemble ha hm hf
    exact ⟨f, a, hff', hassemble⟩
  have hwrapper : ∀ w ∈ (m.rewritten image store).wrappers,
      ∃ slot i, (Resolver.ofModule image store m).IsWrapper slot w i := by
    intro w hw
    obtain ⟨slot, hslot⟩ := AddrMap.mem_values.mp hw
    obtain ⟨i, hi⟩ := Resolver.exists_isWrapper hslot
    exact ⟨slot, i, hi⟩
  refine ⟨fun f' hf' => ?_, fun f' hf' j hj => ?_, fun f' hf' j hj o' ho' => ?_,
    fun f' hf' j hj callee hcallee => ?_⟩
  · rcases List.mem_append.mp hf' with hf' | hf'
    · obtain ⟨f, a, hff', hassemble⟩ := hfunction f' hf'
      exact hff'.wellFormed (hsound.of_assemble hassemble).1
    · obtain ⟨slot, i, hi⟩ := hwrapper f' hf'
      exact hi.wellFormed
  · rcases List.mem_append.mp hf' with hf' | hf'
    · obtain ⟨f, a, hff', -⟩ := hfunction f' hf'
      obtain ⟨i, hij⟩ := hff'.mem_insts hj
      exact hij.settled.1
    · obtain ⟨slot, i, hi⟩ := hwrapper f' hf'
      exact (hi.of_mem hj).2.2
  · rcases List.mem_append.mp hf' with hf' | hf'
    · obtain ⟨f, a, hff', hassemble⟩ := hfunction f' hf'
      obtain ⟨i, hi, hij⟩ := exists_mem_of_forall₂ hff'.insts hj
      obtain ⟨o, ho, hresolves⟩ := hij.exists_operand ho'
      exact hresolves.refers (hs.plain hassemble i hi o ho) hsections rfl
    · obtain ⟨slot, i, hi⟩ := hwrapper f' hf'
      rw [(hi.of_mem hj).1] at ho'
      cases ho'
  · rcases List.mem_append.mp hf' with hf' | hf'
    · have hcode := noCall_replaceInFunc ha hm hsound (.ofModule image store m)
      exact refers_of_known ha hm hcalled hsound
        (Resolver.known_resolveCalls hcode hcalled f' hf' j hj callee hcallee)
    · obtain ⟨slot, i, hi⟩ := hwrapper f' hf'
      rw [(hi.of_mem hj).2.1] at hcallee
      cases hcallee

end Rewritten

/-- **Only names can be wrong in the end.**  Take the functions assembled from a store of units
whose code holds no references, and an image whose sections start at different addresses.  If
the resolution of these functions is refused by the check of the module, then for a name that
comes twice.  If both passes over the module go through, then the check accepts it exactly if no
two functions or wrappers have the same name, and then names lead to their functions.  Every
reference to data leads to the global of its name, with an offset inside it that makes up the
address; and every call of a function or wrapper names one that starts where the call goes. -/
theorem verify_exact (hs : store.BuiltOf fun u => Plain u.body.insts)
    (ha : store.assembleAll naming entries = .ok assembled)
    (hm : m.functions = assembled.map (·.1))
    (hsections : (image.sections.map (·.address)).Nodup) :
    (∀ e, (m.resolve image store).2 = .error (.refused (.verify e)) →
      ∃ name, e = .module (.duplicateFunction name)) ∧
    let r := Resolver.ofModule image store m
    let patched := r.patchAll {} m.functions image.relocations
    let m' := (m.resolve image store).1
    (patched.stop = none → (r.resolveCalls (patched.value.map r.replaceInFunc)).stop = none →
      (m'.verify = .ok () ↔ (m'.allFunctions.map (·.name)).Nodup) ∧
      ((∃ stats, (m.resolve image store).2 = .ok stats) ↔
        (m'.allFunctions.map (·.name)).Nodup) ∧
      ((m'.allFunctions.map (·.name)).Nodup →
        ∀ f ∈ m'.allFunctions, m'.function? f.name = some f) ∧
      ∀ f ∈ m'.allFunctions, ∀ i ∈ f.insts, (∀ o ∈ i.operands, o.Refers m') ∧
        ∀ callee, i.callee? = some callee → callee.Refers m') := by
  refine ⟨fun e he => ?_, ?_⟩
  · obtain ⟨hcalled, hfault⟩ := Module.verify_of_resolve hs.sound he
    exact (hs.linked_rewritten ha hm hcalled hsections).verify_eq_error hfault
  · intro r patched m' hpatched hcalled
    rw [Resolver.map_replaceInFunc_patchAll] at hcalled
    obtain ⟨stats, hresolve⟩ := Module.exists_resolve_eq hpatched hcalled
    have hlinked : m'.Linked := by
      rw [show m' = m.rewritten image store from congrArg Prod.fst hresolve]
      exact hs.linked_rewritten ha hm hcalled hsections
    have hok : (∃ stats, (m.resolve image store).2 = .ok stats) ↔ m'.verify = .ok () := by
      rw [show m' = m.rewritten image store from congrArg Prod.fst hresolve, hresolve]
      cases (m.rewritten image store).verify with
      | ok u => exact ⟨fun _ => rfl, fun _ => ⟨stats, rfl⟩⟩
      | error e => exact ⟨nofun, nofun⟩
    refine ⟨hlinked.verify_eq_ok, hok.trans hlinked.verify_eq_ok, fun hnodup f hf => ?_,
      fun f hf i hi => ⟨hlinked.operands f hf i hi, hlinked.callees f hf i hi⟩⟩
    exact Module.function?_of_mem (hlinked.verify_eq_ok.mpr hnodup) hf

end Store.BuiltOf

/-- Units of a function that reads data and calls another, and of that other one, which calls
through the slot of an import. -/
def Lifted.readsData : List Lifted :=
  [{ address := 0x10, size := 4, kind := .call
     body := { insts := [.setPc 0x10, .load 0 (.const 0x45) 1, .branch (.pc 0x20), .exit]
               nextTemp := 1 } },
   { address := 0x14, size := 1, kind := .ret
     body := { insts := [.setPc 0x14, .branch .env, .exit], nextTemp := 0 } },
   { address := 0x20, size := 2, kind := .callIndirect
     body := { insts := [.setPc 0x20, .load 0 (.const 0x50) 8, .branch (.temp 0), .exit]
               nextTemp := 1 } },
   { address := 0x22, size := 1, kind := .ret
     body := { insts := [.setPc 0x22, .branch .env, .exit], nextTemp := 0 } }]

/-- An image with two sections that touch, and an import behind them. -/
def Image.twoSections : Image :=
  { arch := .x86_64
    sections := [{ name := ".data", address := 0x44, size := 4, executable := false
                   writable := true, data := some #[1, 2, 3, 4] },
                 { name := ".data", address := 0x48, size := 8, executable := false
                   writable := true, data := none }]
    imports := .ofList [(0x50, { name := "puts", library := none })]
    relocations := [] }

/-- The two functions of those units. -/
def Module.readsData : Module :=
  { name := "m"
    functions :=
      [{ name := "function_10", address := 0x10, nextTemp := 1
         blocks := [{ label := "bb_10"
                      insts := [.marker 0x10, .setPc 0x10, .load 0 (.const 0x45) 1,
                        .callMarker (.pc 0x20) true .env, .jump "bb_14"] },
                    { label := "bb_14"
                      insts := [.marker 0x14, .setPc 0x14, .returnMarker .env, .ret] }] },
       { name := "function_20", address := 0x20, nextTemp := 1
         blocks := [{ label := "bb_20"
                      insts := [.marker 0x20, .setPc 0x20, .load 0 (.const 0x50) 8,
                        .callMarker (.temp 0) false .env, .jump "bb_22"] },
                    { label := "bb_22"
                      insts := [.marker 0x22, .setPc 0x22, .returnMarker .env, .ret] }] }] }

/-- What their resolution looks things up in. -/
def Resolver.readsData : Resolver :=
  .ofModule .twoSections (.ofUnits Lifted.readsData) .readsData

/-- Both passes go through and the three names are different: the module is accepted, the
reference leads into the first section, and the call to the other function. -/
theorem Store.verify_exact_readsData :
    ((Store.ofUnits Lifted.readsData).entries : Checked AssembleError _) = .ok [0x10, 0x20] ∧
    ∃ assembled,
      (Store.ofUnits Lifted.readsData).assembleAll {} (.ofList [0x10, 0x20]) = .ok assembled ∧
      Module.readsData.functions = assembled.map (·.1) ∧
      let m' := (Module.readsData.resolve .twoSections (.ofUnits Lifted.readsData)).1
      m'.verify = .ok () ∧
      (∃ stats, (Module.readsData.resolve .twoSections (.ofUnits Lifted.readsData)).2
        = .ok stats) ∧
      (∃ g, m'.global? "data_global_44" = some g ∧ 1 < g.size ∧ g.address.toNat + 1 = 0x45) ∧
      ∃ f, m'.function? "function_20" = some f ∧ f.address = 0x20 := by
  have hunits : ∀ u ∈ Lifted.readsData, Plain u.body.insts := by
    unfold Plain
    decide
  have hsections : (Image.twoSections.sections.map (·.address)).Nodup := by decide
  have hentries : ((Store.ofUnits Lifted.readsData).entries : Checked AssembleError _)
      = .ok [0x10, 0x20] := by decide +kernel
  have hall : ((Store.ofUnits Lifted.readsData).assembleAll {} (.ofList [0x10, 0x20])).map
      (·.map (·.1)) = .ok Module.readsData.functions := by decide +kernel
  have hcalled : (Resolver.readsData.resolveCalls (Module.readsData.functions.map
      Resolver.readsData.replaceInFunc)).stop = none := by decide +kernel
  have hnames : (Module.readsData.resolve .twoSections
      (.ofUnits Lifted.readsData)).1.allFunctions.map (·.name)
        = ["function_10", "function_20", "import_puts"] := by decide +kernel
  have hcode : (Module.readsData.resolve .twoSections
      (.ofUnits Lifted.readsData)).1.functions.any (fun f =>
        f.insts.contains (.load 0 (.dataRef "data_global_44" 1 0x45) 1) &&
        f.insts.contains (.call (.function "function_20" 0x20) .env)) = true := by decide +kernel
  obtain ⟨assembled, ha, hm⟩ := Checked.map_eq_ok.mp hall
  obtain ⟨-, hpasses⟩ := Store.BuiltOf.verify_exact (builtOf_ofUnits hunits) ha hm.symm hsections
  obtain ⟨hverify, hresolve, hfound, hrefers⟩ := hpasses rfl hcalled
  rw [hnames] at hverify hresolve hfound
  have hnodup : ["function_10", "function_20", "import_puts"].Nodup := by decide
  obtain ⟨f, hf, hboth⟩ := List.any_eq_true.mp hcode
  obtain ⟨hload, hcall⟩ := Bool.and_eq_true_iff.mp hboth
  have hmem := List.mem_append_left
    (Module.readsData.resolve .twoSections (.ofUnits Lifted.readsData)).1.wrappers hf
  have hdata := (hrefers f hmem _ (List.contains_iff_mem.mp hload)).1 _ List.mem_cons_self
  obtain ⟨g, hg, hname, haddress⟩ :=
    (hrefers f hmem _ (List.contains_iff_mem.mp hcall)).2 _ rfl
  refine ⟨hentries, assembled, ha, hm.symm, hverify.mpr hnodup, hresolve.mpr hnodup, hdata, g, ?_,
    haddress⟩
  rw [← hname]
  exact hfound hnodup g (List.mem_append_left _ hg)

end FlowRecovery
