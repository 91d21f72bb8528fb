/-
Calls are resolved exactly.

The run that resolves calls is one fold over the calls that come out of it: each is
counted, and a wrapper is made for the first call of each import.  So the counts add up to
the number of markers, and there is one wrapper for every import that is called.

* `Resolver.stop_iff` — the run is stopped exactly by a static call that leads nowhere;
* `Resolver.state_resolveCalls` — the state behind it is the tally of all calls;
* `Resolver.wrappers_resolveCalls` — one wrapper for each called import, which calls it;
* `Module.function?_of_mem` — in a module that is accepted names lead to their functions;
* `Store.BuiltOf.calls_exact` — the whole of it, for assembled functions.
-/
import FlowRecovery.Proofs.Module.Contract
import FlowRecovery.Proofs.Resolution.Callees

namespace FlowRecovery

/-! ### The functions that are known -/

namespace Store

variable {s : Store} {naming : Naming} {entries : AddrSet} {assembled : List (Func × Layout)}

theorem forall₂_assembleAll (h : s.assembleAll naming entries = .ok assembled) :
    List.Forall₂ (fun a f => s.assemble naming entries a = .ok f) entries.toList
      (assembled.map (·.1)) := by
  rw [List.forall₂_map_right_iff]
  refine (forall₂_of_mapM_eq_ok h).imp fun a made hmade => ?_
  obtain ⟨f, hf, hmade⟩ := Checked.bind_eq_ok.mp hmade
  obtain ⟨layout, -, hmade⟩ := Checked.bind_eq_ok.mp hmade
  cases hmade
  exact hf

/-- Assembled functions are named after their entries. -/
theorem Sound.names_assembleAll (hs : s.Sound) (h : s.assembleAll naming entries = .ok assembled) :
    (assembled.map (·.1)).map (fun f => (f.address, f.name))
      = entries.toList.map fun a => (a, naming.name a) := by
  rw [← List.forall₂_eq_eq_eq, List.forall₂_map_right_iff, List.forall₂_map_left_iff]
  refine (forall₂_assembleAll h).flip.imp fun f a hf => ?_
  obtain ⟨-, hname, haddress⟩ := hs.of_assemble hf
  rw [hname, haddress]

end Store

/-- The resolver of assembled functions knows the entries by their names. -/
theorem Resolver.functions_get?_eq_some {image : Image} {store : Store} {m : Module}
    {naming : Naming} {entries : AddrSet} {assembled : List (Func × Layout)} (hs : store.Sound)
    (h : store.assembleAll naming entries = .ok assembled)
    (hm : m.functions = assembled.map (·.1)) {a : Addr} {name : String} :
    (ofModule image store m).functions.get? a = some name ↔ a ∈ entries ∧ name = naming.name a := by
  have hsorted : (entries.toList.map fun a => (a, naming.name a)).Pairwise
      (fun e e' => e.1 < e'.1) := List.pairwise_map.mpr entries.sorted
  rw [← AddrMap.mem_entries_iff, ofModule, hm, hs.names_assembleAll h,
    AddrMap.entries_ofList hsorted, List.mem_map]
  constructor
  · rintro ⟨b, hb, heq⟩
    cases heq
    exact ⟨hb, rfl⟩
  · rintro ⟨ha, rfl⟩
    exact ⟨a, ha, rfl⟩

/-! ### Static calls -/

/-- Some function calls the address directly. -/
def CallsStatically (code : List Func) (a : Addr) : Prop :=
  ∃ f ∈ code, ∃ target state, .callMarker target true state ∈ f.insts ∧
    target.staticAddress? = some a

theorem Func.CallsResolved.insts {r : Resolver} {wrappers : AddrMap Func} {f f' : Func}
    (h : f.CallsResolved r wrappers f') :
    List.Forall₂ (Inst.Called r wrappers f.insts) f.insts f'.insts :=
  List.rel_flatMap h.blocks fun _ _ hb => hb.insts

namespace Resolver

variable {r : Resolver} {code : List Func}

/-- Putting references in the places of numbers leaves calls where they go. -/
theorem callsStatically_map_replaceInFunc {a : Addr} :
    CallsStatically (code.map r.replaceInFunc) a ↔ CallsStatically code a := by
  constructor
  · rintro ⟨f', hf', target', state', hmem, ha⟩
    obtain ⟨f, hf, rfl⟩ := List.mem_map.mp hf'
    rw [r.insts_replaceInFunc] at hmem
    obtain ⟨i, hi, heq⟩ := List.mem_map.mp hmem
    obtain ⟨target, state, rfl, rfl⟩ := Inst.exists_of_mapOperands_eq_callMarker heq
    rw [(resolves_replaceOperand target).staticAddress?_eq] at ha
    exact ⟨f, hf, target, state, hi, ha⟩
  · rintro ⟨f, hf, target, state, hmem, ha⟩
    refine ⟨_, List.mem_map_of_mem hf, r.replaceOperand target, r.replaceOperand state, ?_, ?_⟩
    · rw [r.insts_replaceInFunc]
      exact List.mem_map_of_mem hmem
    · rwa [(resolves_replaceOperand target).staticAddress?_eq]

/-- What leads nowhere, where the functions that are known are those at the entries. -/
theorem leadsNowhere_iff {naming : Naming} {entries : AddrSet} {a : Addr}
    (hknown : ∀ name, r.functions.get? a = some name ↔ a ∈ entries ∧ name = naming.name a) :
    r.LeadsNowhere a ↔
      a ∉ entries ∧ ∀ slot, r.store.HasStub a slot → r.image.imports.get? slot = none := by
  constructor
  · intro h
    refine ⟨fun hmem => ?_, fun slot hslot => h.stub slot (stubSlot?_eq_some.mpr hslot)⟩
    have hsome := (hknown (naming.name a)).mpr ⟨hmem, rfl⟩
    rw [h.function] at hsome
    cases hsome
  · rintro ⟨hmem, hstub⟩
    refine ⟨Option.eq_none_iff_forall_ne_some.mpr fun name hname => hmem ((hknown name).mp hname).1,
      fun slot hslot => hstub slot (stubSlot?_eq_some.mp hslot)⟩

/-- A run is stopped by static calls that lead nowhere, and by nothing else. -/
theorem stop_iff (hs : r.store.Sound) (hcode : ∀ f ∈ code, f.Unresolved) :
    (r.resolveCalls code).stop ≠ none ↔ ∃ a, CallsStatically code a ∧ r.LeadsNowhere a := by
  constructor
  · intro h
    obtain ⟨e, he⟩ := Option.ne_none_iff_exists'.mp h
    obtain ⟨f, hf, target, state, site, hmem, hnowhere, -⟩ := stop_resolveCalls hs he
    obtain ⟨a, rfl⟩ := (hcode f hf).static target state hmem
    exact ⟨a, ⟨f, hf, .pc a, state, hmem, rfl⟩, hnowhere⟩
  · rintro ⟨a, ⟨f, hf, target, state, hmem, ha⟩, hnowhere⟩ hstop
    -- If it went on, the call has become one that leads somewhere.
    obtain ⟨f', -, hf'⟩ := exists_mem_of_forall₂ (callsResolved_resolveCalls hcode hstop).flip hf
    obtain ⟨j, -, hj⟩ := exists_mem_of_forall₂ hf'.insts.flip hmem
    cases hj with
    | kept h => cases h
    | function ha' hname =>
      rw [Option.some.inj (ha'.symm.trans ha), hnowhere.function] at hname
      cases hname
    | stub ha' _ hslot hi _ =>
      rw [Option.some.inj (ha'.symm.trans ha)] at hslot
      rw [hnowhere.stub _ (stubSlot?_eq_some.mpr hslot)] at hi
      cases hi

/-- A run that is stopped names the call. -/
theorem exists_unresolvedCall_iff (hs : r.store.Sound) :
    (∃ site a, (r.resolveCalls code).stop = some (.refused (.unresolvedCall site a))) ↔
      (r.resolveCalls code).stop ≠ none := by
  constructor
  · rintro ⟨site, a, hstop⟩
    rw [hstop]
    exact Option.some_ne_none _
  · intro h
    obtain ⟨e, he⟩ := Option.ne_none_iff_exists'.mp h
    obtain ⟨_, -, target, _, site, -, -, rfl⟩ := stop_resolveCalls hs he
    exact ⟨site, _, he⟩

/-! ### The tally -/

/-- The state behind a run is the tally of the calls that come out of it. -/
theorem state_resolveCalls (hcode : ∀ f ∈ code, f.Unresolved)
    (h : (r.resolveCalls code).stop = none) :
    (r.resolveCalls code).state
      = (callees ((r.resolveCalls code).value.flatMap Func.insts)).foldl r.tally {} := by
  rw [callees, List.filterMap_flatMap]
  refine foldl_of_sweep (V := id) (P := Func.Unresolved) (fun calls f hf hstop => ?_) hcode h
  rw [Func.insts, List.filterMap_flatMap]
  refine foldl_of_sweep (V := id) (P := (· ∈ f.blocks)) (fun calls b hb hstop => ?_)
    (fun b hb => hb) hstop
  rw [List.filterMap_eq_flatMap_toList]
  refine foldl_of_sweep (V := CallScan.calls) (P := fun i => i.callee? = none)
    (fun scan i hi hstop => ?_) (fun i hi => hf.noCall i (List.mem_flatMap.mpr ⟨b, hb, hi⟩)) hstop
  obtain ⟨-, ⟨-, hvalue, hcalls⟩ | ⟨_, _, _, _, _, -, -, hvalue, hcalls⟩⟩ := resolveInst_cases hstop
  · rw [hvalue, hcalls, hi]
    rfl
  · rw [hvalue, hcalls]
    rfl

end Resolver

namespace Callee

/-- Whether a function of the module is called. -/
def isFunction : Callee → Bool
  | .function _ _ => true
  | _ => false

/-- Whether an import is called. -/
def isImported : Callee → Bool
  | .imported _ _ _ => true
  | _ => false

/-- Whether it is not known what is called. -/
def isIndirect : Callee → Bool
  | .indirect _ => true
  | _ => false

/-- There are three kinds of calls. -/
theorem countP_kinds (l : List Callee) :
    l.countP isFunction + l.countP isImported + l.countP isIndirect = l.length := by
  induction l with
  | nil => rfl
  | cons callee l ih =>
    cases callee <;> simp [List.countP_cons, isFunction, isImported, isIndirect] <;> omega

end Callee

/-- The slots of the imports that are called, in order. -/
def calledSlots (l : List Callee) : List Addr := l.filterMap Callee.slot?

namespace Resolver

variable {r : Resolver} {code out : List Func} {wrappers : AddrMap Func}

/-- What the tally of calls is. -/
theorem foldl_tally (l : List Callee) (calls : Calls) :
    l.foldl r.tally calls =
      { wrappers := (calledSlots l).foldl r.wrap calls.wrappers
        direct := calls.direct + l.countP Callee.isFunction
        imported := calls.imported + l.countP Callee.isImported
        indirect := calls.indirect + l.countP Callee.isIndirect } := by
  induction l generalizing calls with
  | nil => rfl
  | cons callee l ih =>
    rw [List.foldl_cons, ih]
    cases callee <;>
      simp [tally, count, calledSlots, List.countP_cons, List.filterMap_cons, Callee.slot?,
        Callee.isFunction, Callee.isImported, Callee.isIndirect, Nat.add_assoc, Nat.add_comm 1]

/-- Every marker becomes one call. -/
theorem length_callees_of_called {insts insts' whole : List Inst}
    (h : List.Forall₂ (Inst.Called r wrappers whole) insts insts')
    (hnone : ∀ i ∈ insts, i.callee? = none) :
    (callees insts').length = insts.countP Inst.isCallMarker := by
  induction h with
  | nil => rfl
  | cons hij _ ih =>
    obtain ⟨hi, hnone⟩ := List.forall_mem_cons.mp hnone
    have ih := ih hnone
    rw [callees] at ih ⊢
    cases hij with
    | kept hmark => rw [List.filterMap_cons_none hi, ih, List.countP_cons_of_neg (by simp [hmark])]
    | _ =>
      rw [List.countP_cons_of_pos rfl, ← ih]
      rfl

theorem length_callees (h : List.Forall₂ (Func.CallsResolved r wrappers) code out)
    (hcode : ∀ f ∈ code, f.Unresolved) :
    (callees (out.flatMap Func.insts)).length
      = (code.flatMap Func.insts).countP Inst.isCallMarker := by
  induction h with
  | nil => rfl
  | cons hf _ ih =>
    obtain ⟨hu, hcode⟩ := List.forall_mem_cons.mp hcode
    have ih := ih hcode
    rw [callees] at ih ⊢
    rw [List.flatMap_cons, List.flatMap_cons, List.filterMap_append, List.length_append, ih,
      List.countP_append, ← length_callees_of_called hf.insts hu.noCall, callees]

/-- The calls of each kind are counted, as many as there are markers. -/
theorem counts_resolveCalls (hcode : ∀ f ∈ code, f.Unresolved)
    (h : (r.resolveCalls code).stop = none) :
    let calls := callees ((r.resolveCalls code).value.flatMap Func.insts)
    (r.resolveCalls code).state.direct = calls.countP Callee.isFunction ∧
      (r.resolveCalls code).state.imported = calls.countP Callee.isImported ∧
      (r.resolveCalls code).state.indirect = calls.countP Callee.isIndirect ∧
      (r.resolveCalls code).state.direct + (r.resolveCalls code).state.imported
        + (r.resolveCalls code).state.indirect
          = (code.flatMap Func.insts).countP Inst.isCallMarker := by
  intro calls
  have hlength := length_callees (callsResolved_resolveCalls hcode h) hcode
  rw [state_resolveCalls hcode h, foldl_tally]
  simp only [Nat.zero_add]
  exact ⟨rfl, rfl, rfl, (Callee.countP_kinds calls).trans hlength⟩

/-! ### Wrappers -/

/-- The function calls the import at the slot and returns. -/
structure IsWrapper (r : Resolver) (slot : Addr) (w : Func) (i : Import) : Prop where
  address : w.address = slot
  known : r.image.imports.get? slot = some i
  blocks : w.blocks = [{ label := "entry"
                         insts := [.importCall i.name i.library r.image.convention, .ret] }]

theorem get?_wrap {slot a : Addr} {w : Func} (h : (r.wrap wrappers slot).get? a = some w) :
    wrappers.get? a = some w ∨ a = slot ∧ ∃ i, r.IsWrapper a w i := by
  cases hi : r.image.imports.get? slot with
  | none =>
    rw [wrap, hi] at h
    exact Or.inl h
  | some i =>
    cases hnew : wrappers.get? slot with
    | some v =>
      rw [wrap_of_contains hnew] at h
      exact Or.inl h
    | none =>
      rw [wrap_of_new hi hnew, AddrMap.get?_insert] at h
      split at h
      · next ha =>
        subst ha
        cases h
        exact Or.inr ⟨rfl, i, rfl, hi, rfl⟩
      · exact Or.inl h

theorem get?_foldl_wrap {slots : List Addr} {a : Addr} {w : Func}
    (h : (slots.foldl r.wrap wrappers).get? a = some w) :
    wrappers.get? a = some w ∨ a ∈ slots ∧ ∃ i, r.IsWrapper a w i := by
  induction slots generalizing wrappers with
  | nil => exact Or.inl h
  | cons slot slots ih =>
    rcases ih h with hw | ⟨ha, hi⟩
    · rcases get?_wrap hw with hw | ⟨rfl, hi⟩
      · exact Or.inl hw
      · exact Or.inr ⟨List.mem_cons_self, hi⟩
    · exact Or.inr ⟨List.mem_cons_of_mem _ ha, hi⟩

/-- The wrapper behind a call of an import. -/
theorem exists_wrapper (h : List.Forall₂ (Func.CallsResolved r wrappers) code out)
    (hcode : ∀ f ∈ code, f.Unresolved) {f' : Func} (hf' : f' ∈ out) {name importName : String}
    {slot : Addr} {state : Operand}
    (hmem : .call (.imported name importName slot) state ∈ f'.insts) :
    ∃ w i, wrappers.get? slot = some w ∧ w.name = name ∧ r.image.imports.get? slot = some i ∧
      i.name = importName := by
  obtain ⟨f, hf, hff'⟩ := exists_mem_of_forall₂ h hf'
  obtain ⟨i, hmem', hij⟩ := exists_mem_of_forall₂ hff'.insts hmem
  cases hij with
  | kept _ => cases (hcode f hf).noCall _ hmem'
  | stub _ _ _ hi hw => exact ⟨_, _, hw, rfl, hi, rfl⟩
  | loaded _ hi hw => exact ⟨_, _, hw, rfl, hi, rfl⟩

/-- There is one wrapper for every import that is called. -/
theorem wrappers_resolveCalls (hcode : ∀ f ∈ code, f.Unresolved)
    (h : (r.resolveCalls code).stop = none) :
    (∀ a w, (r.resolveCalls code).state.wrappers.get? a = some w → ∃ i, r.IsWrapper a w i) ∧
    ((r.resolveCalls code).state.wrappers.values.map (·.address)).Nodup ∧
    ∀ slot, slot ∈ (r.resolveCalls code).state.wrappers.values.map (·.address) ↔
      slot ∈ calledSlots (callees ((r.resolveCalls code).value.flatMap Func.insts)) := by
  have hstate := state_resolveCalls hcode h
  have hcalls := callsResolved_resolveCalls hcode h
  generalize hw : (r.resolveCalls code).state.wrappers = wrappers at hcalls ⊢
  rw [hstate, foldl_tally] at hw
  have hfrom : ∀ a w, wrappers.get? a = some w →
      a ∈ calledSlots (callees ((r.resolveCalls code).value.flatMap Func.insts)) ∧
        ∃ i, r.IsWrapper a w i := by
    intro a w ha
    rw [← hw] at ha
    exact (get?_foldl_wrap ha).resolve_left (by simp)
  have haddresses : wrappers.values.map (·.address) = wrappers.keys := by
    rw [AddrMap.values, AddrMap.keys, List.map_map]
    refine List.map_congr_left fun e he => ?_
    obtain ⟨-, i, hi⟩ := hfrom e.1 e.2 (AddrMap.mem_entries_iff.mp he)
    exact hi.address
  refine ⟨fun a w ha => (hfrom a w ha).2, ?_, fun slot => ⟨fun hslot => ?_, fun hslot => ?_⟩⟩
  · rw [haddresses]
    exact wrappers.keys_pairwise.imp fun hlt heq => UInt64.ne_of_lt hlt heq
  · obtain ⟨w, hmem, rfl⟩ := List.mem_map.mp hslot
    obtain ⟨a, ha⟩ := AddrMap.mem_values.mp hmem
    obtain ⟨hcalled, i, hi⟩ := hfrom a w ha
    exact hi.address ▸ hcalled
  · obtain ⟨callee, hcallee, hslot⟩ := List.mem_filterMap.mp hslot
    obtain ⟨j, hj, hjc⟩ := List.mem_filterMap.mp hcallee
    obtain ⟨f', hf', hj⟩ := List.mem_flatMap.mp hj
    cases callee with
    | imported name importName a =>
      cases hslot
      have hcall : ∃ state, j = .call (.imported name importName slot) state := by
        cases j <;> cases hjc
        exact ⟨_, rfl⟩
      obtain ⟨state, rfl⟩ := hcall
      obtain ⟨w, -, hwrap, -⟩ := exists_wrapper hcalls hcode hf' hj
      obtain ⟨-, i, hi⟩ := hfrom slot w hwrap
      exact List.mem_map.mpr ⟨w, AddrMap.mem_values.mpr ⟨slot, hwrap⟩, hi.address⟩
    | _ => cases hslot

end Resolver

/-! ### The module -/

namespace Module

variable {m m' : Module}

/-- In a module that passes the check names lead to their functions. -/
theorem function?_of_mem (h : m.verify = .ok ()) {f : Func} (hf : f ∈ m.allFunctions) :
    m.function? f.name = some f := by
  obtain ⟨-, hnodup, -⟩ := checkFunctions_eq_ok.mp (verify_eq_ok.mp h).1
  cases hfound : m.function? f.name with
  | none => exact absurd BEq.rfl (List.find?_eq_none.mp hfound f hf)
  | some g =>
    have hname := List.find?_some hfound
    rw [List.inj_on_of_nodup_map hnodup (List.mem_of_find?_eq_some hfound) hf (eq_of_beq hname)]

/-- The result of a resolution that succeeds. -/
theorem resolve_eq_ok {image : Image} {store : Store} {stats : ResolveStats}
    (h : m.resolve image store = (m', .ok stats)) :
    let r := Resolver.ofModule image store m
    let called := r.resolveCalls (m.functions.map r.replaceInFunc)
    called.stop = none ∧ m'.functions = called.value ∧ m'.wrappers = called.state.wrappers.values ∧
      m'.verify = .ok () ∧ stats.directCalls = called.state.direct ∧
      stats.importCalls = called.state.imported ∧ stats.indirectCalls = called.state.indirect := by
  simp only [Module.resolve] at h
  split at h
  · simp at h
  · rw [Resolver.map_replaceInFunc_patchAll] at h
    split at h
    · simp at h
    · next hstop =>
      obtain ⟨hm, hstats⟩ := Prod.mk.inj h
      subst hm
      refine ⟨hstop, rfl, rfl, ?_⟩
      cases hverify : Module.verify _ with
      | error e =>
        rw [hverify] at hstats
        cases hstats
      | ok u =>
        rw [hverify] at hstats
        cases hstats
        exact ⟨rfl, rfl, rfl, rfl⟩

end Module

theorem Resolver.countP_replaceInFunc (r : Resolver) (code : List Func) :
    ((code.map r.replaceInFunc).flatMap Func.insts).countP Inst.isCallMarker
      = (code.flatMap Func.insts).countP Inst.isCallMarker := by
  induction code with
  | nil => rfl
  | cons f code ih =>
    rw [List.map_cons, List.flatMap_cons, List.flatMap_cons, List.countP_append, List.countP_append,
      ih, r.insts_replaceInFunc, List.countP_map]
    congr 2
    exact funext fun i => Inst.isCallMarker_setOperands i _

/-- **Calls are resolved exactly.**  Take the functions assembled from a store whose units came
without call markers, with or without references in the places of numbers.  Their
resolution is refused for a call if and only if one of them calls an address directly where
no function starts and no stub of an import is stored.  If it is not, then every call marker
has become the call it stands for and the rest is as it was; the calls of each kind are
counted, as many as there were markers; and there is one wrapper for every slot that is
called.  If all of the module is accepted, then the name in a call of an import leads to the
wrapper at its slot, and that calls this import. -/
theorem Store.BuiltOf.calls_exact {store : Store} {naming : Naming} {entries : AddrSet}
    {assembled : List (Func × Layout)} {m : Module} (image : Image)
    (hs : store.BuiltOf fun u => ∀ i ∈ u.body.insts, i.isCallMarker = false)
    (ha : store.assembleAll naming entries = .ok assembled)
    (hm : m.functions = assembled.map (·.1)) :
    let r := Resolver.ofModule image store m
    (∀ a name, r.functions.get? a = some name ↔ a ∈ entries ∧ name = naming.name a) ∧
    (∀ code, code = m.functions ∨ code = m.functions.map r.replaceInFunc →
      let out := r.resolveCalls code
      let calls := callees (out.value.flatMap Func.insts)
      ((∃ site a, out.stop = some (.refused (.unresolvedCall site a))) ↔
        ∃ a, CallsStatically m.functions a ∧ a ∉ entries ∧
          ∀ slot, store.HasStub a slot → image.imports.get? slot = none) ∧
      ((∀ site a, out.stop ≠ some (.refused (.unresolvedCall site a))) →
        out.stop = none ∧ List.Forall₂ (Func.CallsResolved r out.state.wrappers) code out.value ∧
        out.state.direct = calls.countP Callee.isFunction ∧
        out.state.imported = calls.countP Callee.isImported ∧
        out.state.indirect = calls.countP Callee.isIndirect ∧
        out.state.direct + out.state.imported + out.state.indirect
          = (code.flatMap Func.insts).countP Inst.isCallMarker ∧
        (out.state.wrappers.values.map (·.address)).Nodup ∧
        ∀ slot, slot ∈ out.state.wrappers.values.map (·.address) ↔ slot ∈ calledSlots calls)) ∧
    ∀ m' stats, m.resolve image store = (m', .ok stats) →
      stats.directCalls + stats.importCalls + stats.indirectCalls
        = (m.functions.flatMap Func.insts).countP Inst.isCallMarker ∧
      ∀ f ∈ m'.functions, ∀ name importName slot state,
        .call (.imported name importName slot) state ∈ f.insts →
          ∃ w i, m'.function? name = some w ∧ r.IsWrapper slot w i ∧ i.name = importName := by
  intro r
  have hsound : store.Sound := hs.sound
  have hknown : ∀ a name, r.functions.get? a = some name ↔ a ∈ entries ∧ name = naming.name a :=
    fun _ _ => Resolver.functions_get?_eq_some hsound ha hm
  have hunresolved : ∀ f ∈ m.functions, f.Unresolved := by
    intro f hf
    rw [hm] at hf
    obtain ⟨a, -, hassemble⟩ := exists_mem_of_forall₂ (forall₂_assembleAll ha) hf
    exact hs.unresolved hassemble
  have hreplaced : ∀ f ∈ m.functions.map r.replaceInFunc, f.Unresolved := by
    intro f' hf'
    obtain ⟨f, hf, rfl⟩ := List.mem_map.mp hf'
    exact (hunresolved f hf).replaceInFunc r
  refine ⟨hknown, fun code hcode => ?_, fun m' stats hresolve => ?_⟩
  · have hcalled : ∀ a, CallsStatically code a ↔ CallsStatically m.functions a := by
      rcases hcode with rfl | rfl
      · exact fun a => Iff.rfl
      · exact fun a => Resolver.callsStatically_map_replaceInFunc
    have hcode : ∀ f ∈ code, f.Unresolved := by
      rcases hcode with rfl | rfl
      · exact hunresolved
      · exact hreplaced
    refine ⟨?_, fun hgood => ?_⟩
    · rw [Resolver.exists_unresolvedCall_iff hsound, Resolver.stop_iff hsound hcode]
      simp only [hcalled, Resolver.leadsNowhere_iff (hknown _)]
      rfl
    · have hstop : (r.resolveCalls code).stop = none := by
        by_contra hstop
        obtain ⟨site, a, hrefused⟩ := (Resolver.exists_unresolvedCall_iff hsound).mpr hstop
        exact hgood site a hrefused
      obtain ⟨hdirect, himported, hindirect, hsum⟩ := Resolver.counts_resolveCalls hcode hstop
      obtain ⟨-, hnodup, hslots⟩ := Resolver.wrappers_resolveCalls hcode hstop
      exact ⟨hstop, Resolver.callsResolved_resolveCalls hcode hstop, hdirect, himported, hindirect,
        hsum, hnodup, hslots⟩
  · obtain ⟨hstop, hfunctions, hwrappers, hverify, hdirect, himported, hindirect⟩ :=
      Module.resolve_eq_ok hresolve
    refine ⟨?_, fun f hf name importName slot state hmem => ?_⟩
    · rw [hdirect, himported, hindirect, ← r.countP_replaceInFunc]
      exact (Resolver.counts_resolveCalls hreplaced hstop).2.2.2
    · rw [hfunctions] at hf
      obtain ⟨w, i, hw, rfl, hi, rfl⟩ := Resolver.exists_wrapper
        (Resolver.callsResolved_resolveCalls hreplaced hstop) hreplaced hf hmem
      obtain ⟨j, hj⟩ := (Resolver.wrappers_resolveCalls hreplaced hstop).1 slot w hw
      cases hi.symm.trans hj.known
      refine ⟨w, i, Module.function?_of_mem hverify (List.mem_append_right _ ?_), hj, rfl⟩
      rw [hwrappers]
      exact AddrMap.mem_values.mpr ⟨slot, hw⟩

/-- Units of a function that calls another function, an import by its stub and the same import
through its slot; of the other function; and of the stub. -/
def Lifted.threeCalls : List Lifted :=
  [{ address := 0x10, size := 2, kind := .call
     body := { insts := [.setPc 0x10, .branch (.pc 0x20), .exit], nextTemp := 0 } },
   { address := 0x12, size := 2, kind := .call
     body := { insts := [.setPc 0x12, .branch (.pc 0x30), .exit], nextTemp := 0 } },
   { address := 0x14, size := 2, kind := .callIndirect
     body := { insts := [.setPc 0x14, .load 0 (.const 0x40) 8, .branch (.temp 0), .exit]
               nextTemp := 1 } },
   { address := 0x16, size := 1, kind := .ret
     body := { insts := [.setPc 0x16, .branch .env, .exit], nextTemp := 0 } },
   { address := 0x20, size := 1, kind := .ret
     body := { insts := [.setPc 0x20, .branch .env, .exit], nextTemp := 0 } },
   { address := 0x30, size := 2, kind := .jumpIndirect
     body := { insts := [.setPc 0x30, .load 0 (.const 0x40) 8, .branch (.temp 0), .exit]
               nextTemp := 1 } }]

/-- An image with one import. -/
def Image.oneImport : Image :=
  { arch := .x86_64
    sections := []
    imports := .ofList [(0x40, { name := "f", library := none })]
    relocations := [] }

/-- The two functions of those units. -/
def Module.threeCalls : Module :=
  { name := "m"
    functions :=
      [{ name := "function_10", address := 0x10, nextTemp := 1
         blocks := [{ label := "bb_10"
                      insts := [.marker 0x10, .setPc 0x10, .callMarker (.pc 0x20) true .env,
                        .jump "bb_12"] },
                    { label := "bb_12"
                      insts := [.marker 0x12, .setPc 0x12, .callMarker (.pc 0x30) true .env,
                        .jump "bb_14"] },
                    { label := "bb_14"
                      insts := [.marker 0x14, .setPc 0x14, .load 0 (.const 0x40) 8,
                        .callMarker (.temp 0) false .env, .jump "bb_16"] },
                    { label := "bb_16"
                      insts := [.marker 0x16, .setPc 0x16, .returnMarker .env, .ret] }] },
       { name := "function_20", address := 0x20, nextTemp := 0
         blocks := [{ label := "bb_20"
                      insts := [.marker 0x20, .setPc 0x20, .returnMarker .env, .ret] }] }] }

/-- Of three call markers one becomes a call of a function, and two become calls of the import
through one wrapper. -/
theorem Store.calls_exact_threeCalls :
    ((Store.ofUnits Lifted.threeCalls).entries : Checked AssembleError _) = .ok [0x10, 0x20] ∧
    ∃ assembled m' stats,
      (Store.ofUnits Lifted.threeCalls).assembleAll {} (.ofList [0x10, 0x20]) = .ok assembled ∧
      Module.threeCalls.functions = assembled.map (·.1) ∧
      Module.threeCalls.resolve .oneImport (.ofUnits Lifted.threeCalls) = (m', .ok stats) ∧
      stats.directCalls = 1 ∧ stats.importCalls = 2 ∧
      stats.directCalls + stats.importCalls + stats.indirectCalls = 3 ∧
      ∃ w, m'.function? "import_f" = some w ∧ w.address = 0x40 ∧
        w.blocks = [{ label := "entry", insts := [.importCall "f" none .sysv64, .ret] }] := by
  have hunits : ∀ u ∈ Lifted.threeCalls, ∀ i ∈ u.body.insts, i.isCallMarker = false := by decide
  have hentries : ((Store.ofUnits Lifted.threeCalls).entries : Checked AssembleError _)
      = .ok [0x10, 0x20] := by decide +kernel
  have hall : ((Store.ofUnits Lifted.threeCalls).assembleAll {} (.ofList [0x10, 0x20])).map
      (·.map (·.1)) = .ok Module.threeCalls.functions := by decide +kernel
  have hknown : Image.oneImport.imports.get? 0x40 = some { name := "f", library := none } := by
    decide +kernel
  have hstats : (Module.threeCalls.resolve .oneImport (.ofUnits Lifted.threeCalls)).2.map
      (fun s => (s.directCalls, s.importCalls)) = .ok (1, 2) := by decide +kernel
  have hcall : (Module.threeCalls.resolve .oneImport (.ofUnits Lifted.threeCalls)).1.functions.any
      (·.insts.contains (.call (.imported "import_f" "f" 0x40) .env)) = true := by decide +kernel
  obtain ⟨assembled, ha, hm⟩ := Checked.map_eq_ok.mp hall
  obtain ⟨stats, hstats, hcounts⟩ := Checked.map_eq_ok.mp hstats
  obtain ⟨hdirect, himported⟩ := Prod.mk.inj hcounts
  have hresolve : Module.threeCalls.resolve .oneImport (.ofUnits Lifted.threeCalls) =
      (_, .ok stats) := Prod.ext rfl hstats
  obtain ⟨-, -, hwhole⟩ := Store.BuiltOf.calls_exact .oneImport (builtOf_ofUnits hunits) ha hm.symm
  obtain ⟨hsum, hlookup⟩ := hwhole _ stats hresolve
  obtain ⟨f, hf, hmem⟩ := List.any_eq_true.mp hcall
  obtain ⟨w, i, hw, hwraps, -⟩ := hlookup f hf _ _ _ _ (List.contains_iff_mem.mp hmem)
  cases hknown.symm.trans hwraps.known
  exact ⟨hentries, assembled, _, stats, ha, hm.symm, hresolve, hdirect, himported, hsum, w, hw,
    hwraps.address, hwraps.blocks⟩

end FlowRecovery
