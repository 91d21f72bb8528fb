/-
What calls are resolved to.

A call is resolved while its block is swept, with the instructions in front of it at hand
and the wrappers made so far.  What comes out does not depend on either: in an assembled
function every temporary has one definition, in front of the calls that use it, so the load
that is found is the load of the function; and wrappers are only added, so those at the end
of the run will do.

* `Func.Unresolved` — what the code of an assembled function is like;
* `Store.BuiltOf.unresolved` — assembled functions are like that, if lifted units have no
  call markers, and `Func.Unresolved.replaceInFunc` — they stay so when numbers are replaced;
* `Inst.Called` — what becomes of an instruction, said from the whole function and the
  wrappers at the end;
* `Resolver.callsResolved_resolveCalls` — a run that is not stopped does that everywhere.
-/
import FlowRecovery.Proofs.Assembly.Content
import FlowRecovery.Proofs.Resolution.Wrappers
import FlowRecovery.Proofs.Store.Halting

namespace FlowRecovery

open Body (rawEnd)

/-- What the instruction calls. -/
def Inst.callee? : Inst → Option Callee
  | .call callee _ => some callee
  | _ => none

/-- What instructions call, in order. -/
def callees (insts : List Inst) : List Callee := insts.filterMap Inst.callee?

/-! ### Code before its calls are resolved -/

/-- What the code of an assembled function is like: temporaries are defined once, a call
marker finds its target defined before it in its block, the target of a static call is a
program counter, and there are no calls. -/
structure Func.Unresolved (f : Func) : Prop where
  nodup : (definitions f.insts).Nodup
  defined : ∀ b ∈ f.blocks, ∀ pre target isStatic state post,
    b.insts = pre ++ .callMarker target isStatic state :: post →
      ∀ t, target.temp? = some t → t ∈ definitions pre
  static : ∀ target state, .callMarker target true state ∈ f.insts → ∃ a, target = .pc a
  noCall : ∀ i ∈ f.insts, i.callee? = none

/-- A load into the temporary from the address. -/
def LoadsFrom (insts : List Inst) (t : Temp) (slot : Addr) : Prop :=
  ∃ addr size, .load t addr size ∈ insts ∧ addr.staticAddress? = some slot

/-- Where a temporary has one definition, there is one load to be found. -/
theorem loadedFrom?_eq_some {before : List Inst} {t : Temp} {slot : Addr}
    (h : ∀ i ∈ before, ∀ j ∈ before, i.def? = some t → j.def? = some t → i = j) :
    loadedFrom? t before = some slot ↔ LoadsFrom before t slot := by
  have hsound : ∀ a, loadedFrom? t before = some a → LoadsFrom before t a := by
    intro a ha
    obtain ⟨i, hi, hia⟩ := List.exists_of_findSome?_eq_some ha
    split at hia
    · next dst addr size =>
      split at hia
      · next hdst => exact ⟨addr, size, hdst ▸ hi, hia⟩
      · cases hia
    · cases hia
  refine ⟨hsound slot, ?_⟩
  rintro ⟨addr, size, hload, haddr⟩
  cases hfound : loadedFrom? t before with
  | none =>
    have hnone := List.findSome?_eq_none_iff.mp hfound _ hload
    simp [haddr] at hnone
  | some a =>
    obtain ⟨addr', size', hload', haddr'⟩ := hsound a hfound
    cases h _ hload _ hload' rfl rfl
    rw [haddr] at haddr'
    exact haddr'.symm

/-- What is loaded into the target of a call is loaded before it in its block. -/
theorem Func.Unresolved.loadedFrom?_eq_some {f : Func} (h : f.Unresolved) {b : CodeBlock}
    (hb : b ∈ f.blocks) {pre post : List Inst} {t : Temp} {isStatic : Bool} {state : Operand}
    (hcode : b.insts = pre ++ .callMarker (.temp t) isStatic state :: post) {slot : Addr} :
    loadedFrom? t pre.reverse = some slot ↔ LoadsFrom f.insts t slot := by
  have hpre : ∀ i ∈ pre, i ∈ f.insts := fun i hi =>
    List.mem_flatMap.mpr ⟨b, hb, hcode ▸ List.mem_append_left _ hi⟩
  rw [FlowRecovery.loadedFrom?_eq_some fun i hi j hj =>
    eq_of_def? h.nodup (hpre i (List.mem_reverse.mp hi)) (hpre j (List.mem_reverse.mp hj))]
  constructor
  · rintro ⟨addr, size, hload, haddr⟩
    exact ⟨addr, size, hpre _ (List.mem_reverse.mp hload), haddr⟩
  · rintro ⟨addr, size, hload, haddr⟩
    -- The target is defined in front of the call, and nowhere else.
    obtain ⟨i, hi, hit⟩ := List.mem_filterMap.mp (h.defined b hb pre _ _ _ post hcode t rfl)
    cases eq_of_def? h.nodup (hpre i hi) hload hit rfl
    exact ⟨addr, size, List.mem_reverse.mpr hi, haddr⟩

/-! ### Where that code comes from -/

/-- The static calls of the block go to program counters. -/
def Block.StaticCalls (b : Block) : Prop :=
  ∀ target state, .callMarker target true state ∈ b.body.insts → ∃ a, target = .pc a

namespace Block.StaticCalls

variable {u : Lifted} {b : Block}

/-- A unit without call markers gets none but the one for its branch. -/
theorem of_classify (hu : ∀ i ∈ u.body.insts, i.isCallMarker = false)
    (hb : classify u = .ok b) : b.StaticCalls := by
  intro target state hmem
  have hbody := (classified_of_classify hb).body
  have hnone : .callMarker target true state ∉ u.marked.insts := by
    intro hmark
    rw [Lifted.marked, Lifted.mem_mark rfl] at hmark
    cases hu _ hmark
  rcases Lifted.markTransfer_cases hbody with
    ⟨-, -, heq⟩ | ⟨-, pre, target', post, hmarked, heq, -⟩
  · rw [heq] at hmem
    exact absurd hmem hnone
  · rw [heq] at hmem
    rw [hmarked] at hnone
    rcases List.mem_append.mp hmem with hmem | hmem
    · exact absurd (List.mem_append_left _ hmem) hnone
    · rcases List.mem_cons.mp hmem with heq | hmem
      · unfold Lifted.transferMarker at heq
        split at heq
        · cases heq
        · obtain ⟨rfl, hstatic, -⟩ := Inst.callMarker.inj heq
          cases target <;> first | exact ⟨_, rfl⟩ | simp [Operand.pc?] at hstatic
      · exact absurd (List.mem_append_right _ (List.mem_cons_of_mem _ hmem)) hnone

theorem splitStable : Store.SplitStable (fun _ => True) fun b => b.Sound ∧ b.StaticCalls := by
  intro b at_ first second hb hat hs
  obtain ⟨hfirst, hsecond⟩ := Sound.splitStable hb.1 hat hs
  obtain ⟨pre, post, hcut, hbefore, hfrom⟩ := hb.1.exists_parts hs.inside
  have hbody := Option.some.inj (hs.body_first.symm.trans hbefore)
  have hbody' := Option.some.inj (hs.body_second.symm.trans hfrom)
  refine ⟨⟨hfirst, fun target state hmem => hb.2 target state ?_⟩, hsecond,
    fun target state hmem => hb.2 target state ?_⟩
  · rw [hbody] at hmem
    rw [hcut]
    rcases List.mem_append.mp hmem with hmem | hmem
    · exact List.mem_append_left _ hmem
    · rcases List.mem_pair.mp hmem with heq | heq <;> cases heq
  · rw [hbody'] at hmem
    rw [hcut]
    refine List.mem_append_right _ ((List.mem_cons.mp hmem).elim nofun fun hmem => ?_)
    rcases List.mem_append.mp hmem with hmem | hmem
    · rw [Body.mem_carry rfl] at hmem
      cases hmem
    · exact List.mem_cons_of_mem _ hmem

end Block.StaticCalls

theorem Store.BuiltOf.staticCalls {s : Store}
    (hs : s.BuiltOf fun u => ∀ i ∈ u.body.insts, i.isCallMarker = false) {k : Addr} {b : Block}
    (hget : s.get? k = some b) : b.StaticCalls := by
  refine ((hs.everywhere Block.StaticCalls.splitStable fun u b hu hb => ?_).stored k b hget).2.2.2
  exact ⟨trivial, .of_classified (Block.classified_of_classify hb), .of_classify hu hb⟩

namespace Inst

theorem callee?_of_isInner {i : Inst} (h : i.isInner = true) : i.callee? = none := by
  cases i <;> first | rfl | cases h

theorem callee?_of_isAdded {i : Inst} (h : i.isAdded = true) : i.callee? = none := by
  cases i <;> first | rfl | cases h

theorem exists_of_mapTemps_eq_callMarker {f : Temp → Temp} {i : Inst} {target state : Operand}
    {isStatic : Bool} (h : i.mapTemps f = .callMarker target isStatic state) :
    ∃ target' state', i = .callMarker target' isStatic state' ∧ target = target'.mapTemp f := by
  cases i with
  | callMarker target' isStatic' state' =>
    obtain ⟨rfl, rfl, -⟩ := Inst.callMarker.inj h
    exact ⟨target', state', rfl, rfl⟩
  | call callee state => cases callee <;> cases h
  | _ => cases h

end Inst

/-- Assembled functions hold no calls. -/
theorem Func.MadeOf.noCall {f : Func} {entry : Addr} {members : AddrSet} {blocks : List Block}
    {codes : List CodeBlock} {last : Assembly} (h : f.MadeOf entry members blocks codes last) :
    ∀ i ∈ f.insts, i.callee? = none := by
  intro i hi
  obtain ⟨c, hc, hi⟩ := List.mem_flatMap.mp hi
  rcases h.insts_of_mem hc with
    ⟨b, hb, base, inner, raw, final, -, hinner, hcode, hadded, -⟩ | hadded
  · rw [hcode] at hi
    rcases List.mem_append.mp hi with hi | hi
    · exact Inst.callee?_of_isInner (isInner_renumber hinner i hi)
    · exact Inst.callee?_of_isAdded (hadded i hi)
  · exact Inst.callee?_of_isAdded (hadded i hi)

/-- The code of an assembled function is not resolved, if no lifted unit had call markers. -/
theorem Store.BuiltOf.unresolved {s : Store}
    (hs : s.BuiltOf fun u => ∀ i ∈ u.body.insts, i.isCallMarker = false) {naming : Naming}
    {entries : AddrSet} {entry : Addr} {f : Func} (h : s.assemble naming entries entry = .ok f) :
    f.Unresolved := by
  have hsound := hs.sound
  obtain ⟨codes, last, hmade⟩ := hsound.madeOf h
  refine ⟨(hsound.of_assemble h).1.nodup, fun c hc pre target isStatic state post hcode t ht => ?_,
    fun target state hmem => ?_, hmade.noCall⟩
  · rcases hmade.insts_of_mem hc with ⟨b, -, base, inner, raw, final, -, -, -, -, hreads⟩ | hadded
    · rw [hcode] at hreads
      have huses := (ReadsDefined.append.mp hreads).2.1 t
      rw [List.append_nil] at huses
      exact huses (List.mem_filterMap.mpr ⟨target, List.mem_cons_self, ht⟩)
    · cases hadded (.callMarker target isStatic state) (by simp [hcode])
  · obtain ⟨c, hc, hmem⟩ := List.mem_flatMap.mp hmem
    rcases hmade.insts_of_mem hc with
      ⟨b, hb, base, inner, raw, final, hinsts, -, hcode, hadded, -⟩ | hadded
    · rw [hcode] at hmem
      rcases List.mem_append.mp hmem with hmem | hmem
      · obtain ⟨j, hj, hjm⟩ := List.mem_map.mp hmem
        obtain ⟨target', state', rfl, rfl⟩ := Inst.exists_of_mapTemps_eq_callMarker hjm
        obtain ⟨k, -, hk⟩ := mem_functionBlocks.mp hb
        obtain ⟨a, rfl⟩ := hs.staticCalls hk target' state' (hinsts ▸ List.mem_append_left _ hj)
        exact ⟨a, rfl⟩
      · cases hadded _ hmem
    · cases hadded _ hmem

/-! ### References in the places of numbers -/

namespace Inst

theorem exists_of_mapOperands_eq_callMarker {g : Operand → Operand} {i : Inst}
    {target state : Operand} {isStatic : Bool}
    (h : i.mapOperands g = .callMarker target isStatic state) :
    ∃ target' state', i = .callMarker target' isStatic state' ∧ target = g target' := by
  cases i with
  | callMarker target' isStatic' state' =>
    obtain ⟨rfl, rfl, -⟩ := Inst.callMarker.inj h
    exact ⟨target', state', rfl, rfl⟩
  | call callee state => cases callee <;> cases h
  | _ => cases h

theorem callee?_mapOperands {g : Operand → Operand} {i : Inst} (h : i.callee? = none) :
    (i.mapOperands g).callee? = none := by
  cases i with
  | call callee state => cases h
  | _ => rfl

end Inst

theorem definitions_mapOperands (g : Operand → Operand) (insts : List Inst) :
    definitions (insts.map (Inst.mapOperands g)) = definitions insts := by
  rw [definitions, List.filterMap_map]
  exact List.filterMap_congr fun i _ => Inst.def?_setOperands i _

theorem Operand.Resolves.temp?_eq {r : Resolver} {o o' : Operand} (h : o.Resolves r o') :
    o'.temp? = o.temp? := by
  cases h with
  | kept _ => rfl
  | replaced _ address => cases o' <;> first | rfl | cases address

namespace Resolver

variable (r : Resolver)

theorem insts_replaceInFunc (f : Func) :
    (r.replaceInFunc f).insts = f.insts.map (Inst.mapOperands r.replaceOperand) := by
  simp [Func.insts, replaceInFunc, replaceInBlock, List.flatMap_map, List.map_flatMap]

end Resolver

/-- Calls are not resolved by putting references in the places of numbers. -/
theorem Func.Unresolved.replaceInFunc {f : Func} (h : f.Unresolved) (r : Resolver) :
    (r.replaceInFunc f).Unresolved := by
  refine ⟨?_, fun c hc pre target isStatic state post hcode t ht => ?_, fun target state hmem => ?_,
    fun i hi => ?_⟩
  · rw [r.insts_replaceInFunc, definitions_mapOperands]
    exact h.nodup
  · obtain ⟨b, hb, rfl⟩ := List.mem_map.mp hc
    obtain ⟨pre', rest, hinsts, rfl, hrest⟩ := List.map_eq_append_iff.mp hcode
    obtain ⟨i, post', rfl, hi, -⟩ := List.map_eq_cons_iff.mp hrest
    obtain ⟨target', state', rfl, rfl⟩ := Inst.exists_of_mapOperands_eq_callMarker hi
    rw [definitions_mapOperands]
    rw [(Resolver.resolves_replaceOperand target').temp?_eq] at ht
    exact h.defined b hb pre' target' isStatic state' post' hinsts t ht
  · rw [r.insts_replaceInFunc] at hmem
    obtain ⟨i, hi, heq⟩ := List.mem_map.mp hmem
    obtain ⟨target', state', rfl, rfl⟩ := Inst.exists_of_mapOperands_eq_callMarker heq
    obtain ⟨a, rfl⟩ := h.static target' state' hi
    exact ⟨a, rfl⟩
  · rw [r.insts_replaceInFunc] at hi
    obtain ⟨j, hj, rfl⟩ := List.mem_map.mp hi
    exact Inst.callee?_mapOperands (h.noCall j hj)

/-! ### The run -/

/-- At the address there is a stub of the import at the slot. -/
def Store.HasStub (s : Store) (a slot : Addr) : Prop :=
  ∃ b, s.get? a = some b ∧ (b.stubSlot : Checked ResolveError _) = .ok (some slot)

theorem Resolver.stubSlot?_eq_some {r : Resolver} {a slot : Addr} :
    (r.stubSlot? a : Checked ResolveError _) = .ok (some slot) ↔ r.store.HasStub a slot := by
  unfold stubSlot? Store.HasStub
  cases r.store.get? a <;> simp

/-- All wrappers of the one are wrappers of the other. -/
def Extends (wrappers wrappers' : AddrMap Func) : Prop :=
  ∀ a w, wrappers.get? a = some w → wrappers'.get? a = some w

theorem Extends.trans {w w' w'' : AddrMap Func} (h : Extends w w') (h' : Extends w' w'') :
    Extends w w'' :=
  fun a v hv => h' a v (h a v hv)

/-- What becomes of an instruction when calls are resolved.  A static call goes to the
function at its target, and else to the import whose slot the stub at its target reads; any
other call goes to the import whose slot its target is loaded from, and else stays indirect. -/
inductive Inst.Called (r : Resolver) (wrappers : AddrMap Func) (code : List Inst) :
    Inst → Inst → Prop
  | kept {i : Inst} (h : i.isCallMarker = false) : Called r wrappers code i i
  | function {target state : Operand} {a : Addr} {name : String}
      (ha : target.staticAddress? = some a) (hname : r.functions.get? a = some name) :
      Called r wrappers code (.callMarker target true state) (.call (.function name a) state)
  | stub {target state : Operand} {a slot : Addr} {i : Import} {w : Func}
      (ha : target.staticAddress? = some a) (hnone : r.functions.get? a = none)
      (hslot : r.store.HasStub a slot)
      (hi : r.image.imports.get? slot = some i) (hw : wrappers.get? slot = some w) :
      Called r wrappers code (.callMarker target true state)
        (.call (.imported w.name i.name slot) state)
  | loaded {t : Temp} {state : Operand} {slot : Addr} {i : Import} {w : Func}
      (hload : LoadsFrom code t slot) (hi : r.image.imports.get? slot = some i)
      (hw : wrappers.get? slot = some w) :
      Called r wrappers code (.callMarker (.temp t) false state)
        (.call (.imported w.name i.name slot) state)
  | indirect {target state : Operand}
      (h : ∀ t slot, target = .temp t → LoadsFrom code t slot →
        r.image.imports.get? slot = none) :
      Called r wrappers code (.callMarker target false state) (.call (.indirect target) state)

namespace Resolver

variable {r : Resolver}

theorem extends_wrap (wrappers : AddrMap Func) (slot : Addr) :
    Extends wrappers (r.wrap wrappers slot) := by
  intro a w hw
  cases hnew : wrappers.get? slot with
  | some v => rwa [wrap_of_contains hnew]
  | none =>
    cases hi : r.image.imports.get? slot with
    | none => simpa [wrap, hi] using hw
    | some i =>
      rw [wrap_of_new hi hnew, AddrMap.get?_insert, if_neg ?_]
      · exact hw
      · rintro rfl
        rw [hnew] at hw
        cases hw

theorem extends_foldl_wrap (slots : List Addr) (wrappers : AddrMap Func) :
    Extends wrappers (slots.foldl r.wrap wrappers) := by
  induction slots generalizing wrappers with
  | nil => exact fun _ _ h => h
  | cons slot slots ih => exact (extends_wrap wrappers slot).trans (ih _)

/-- Count a call and make its wrapper. -/
def tally (r : Resolver) (calls : Calls) (callee : Callee) : Calls :=
  count calls (callee.slot?.toList.foldl r.wrap calls.wrappers) callee

/-- What a step does that does not stop. -/
theorem resolveInst_cases {scan : CallScan} {i : Inst} (h : (r.resolveInst scan i).stop = none) :
    (r.resolveInst scan i).state.before = i :: scan.before ∧
      ((i.isCallMarker = false ∧ (r.resolveInst scan i).value = i ∧
          (r.resolveInst scan i).state.calls = scan.calls) ∨
        ∃ target isStatic state callee wrappers, i = .callMarker target isStatic state ∧
          r.Leads scan target isStatic callee wrappers ∧
          (r.resolveInst scan i).value = .call callee state ∧
          (r.resolveInst scan i).state.calls = r.tally scan.calls callee) := by
  cases i with
  | callMarker target isStatic state =>
    rw [resolveInst] at h ⊢
    cases hc : r.callee scan target isStatic with
    | error e => simp [hc] at h
    | ok called =>
      obtain ⟨callee, wrappers⟩ := called
      have hleads := leads_of_callee hc
      refine ⟨rfl, Or.inr ⟨target, isStatic, state, callee, wrappers, rfl, hleads, rfl, ?_⟩⟩
      rw [tally, ← hleads.wrappers_eq]
  | _ => exact ⟨rfl, Or.inl ⟨rfl, rfl, rfl⟩⟩

theorem wrappers_tally (calls : Calls) (callee : Callee) :
    (r.tally calls callee).wrappers = callee.slot?.toList.foldl r.wrap calls.wrappers := by
  cases callee <;> rfl

theorem extends_resolveInst (scan : CallScan) (i : Inst) :
    Extends scan.calls.wrappers (r.resolveInst scan i).state.calls.wrappers := by
  cases hstop : (r.resolveInst scan i).stop with
  | none =>
    obtain ⟨-, ⟨-, -, hcalls⟩ | ⟨_, _, _, callee, _, -, -, -, hcalls⟩⟩ := resolveInst_cases hstop
    · rw [hcalls]
      exact fun _ _ h => h
    · rw [hcalls, wrappers_tally]
      exact extends_foldl_wrap _ _
  | some e =>
    -- A step that stops leaves everything as it is.
    unfold resolveInst at hstop ⊢
    split at hstop
    · cases hstop
    · split at hstop
      · exact fun _ _ h => h
      · cases hstop
    · cases hstop

end Resolver

/-- Two blocks with the same label, the calls of the first resolved in the second. -/
structure CodeBlock.CallsResolved (r : Resolver) (wrappers : AddrMap Func) (code : List Inst)
    (b b' : CodeBlock) : Prop where
  label : b'.label = b.label
  insts : List.Forall₂ (Inst.Called r wrappers code) b.insts b'.insts

/-- The same function, with its calls resolved. -/
structure Func.CallsResolved (r : Resolver) (wrappers : AddrMap Func) (f f' : Func) : Prop where
  name : f'.name = f.name
  address : f'.address = f.address
  blocks : List.Forall₂ (CodeBlock.CallsResolved r wrappers f.insts) f.blocks f'.blocks

namespace Resolver

variable {r : Resolver} {final : AddrMap Func}

/-- What a call marker leads to is what the rest of its function says. -/
theorem Leads.called {f : Func} (hf : f.Unresolved) {b : CodeBlock} (hb : b ∈ f.blocks)
    {scan : CallScan} {target state : Operand} {isStatic : Bool} {callee : Callee}
    {wrappers : AddrMap Func} {rest : List Inst}
    (hcode : b.insts = scan.before.reverse ++ .callMarker target isStatic state :: rest)
    (h : r.Leads scan target isStatic callee wrappers) (hend : Extends wrappers final) :
    Inst.Called r final f.insts (.callMarker target isStatic state) (.call callee state) := by
  have hmem : .callMarker target isStatic state ∈ f.insts :=
    List.mem_flatMap.mpr ⟨b, hb, by simp [hcode]⟩
  -- The loads in front of the marker are the loads of the function.
  have hloads : ∀ t slot, target = .temp t →
      (loadedFrom? t scan.before = some slot ↔ LoadsFrom f.insts t slot) := by
    rintro t slot rfl
    rw [← hf.loadedFrom?_eq_some hb hcode, List.reverse_reverse]
  cases h with
  | function h =>
    obtain ⟨a, rfl⟩ := hf.static target state hmem
    exact .function rfl h
  | stub h hslot hi hw =>
    obtain ⟨a, rfl⟩ := hf.static target state hmem
    exact .stub rfl h (stubSlot?_eq_some.mp hslot) hi (hend _ _ hw)
  | loaded hslot hi hw =>
    obtain ⟨t, ht, hslot⟩ := Option.bind_eq_some_iff.mp hslot
    have htarget : target = .temp t := by cases target <;> cases ht; rfl
    subst htarget
    exact .loaded ((hloads t _ rfl).mp hslot) hi (hend _ _ hw)
  | indirect h =>
    refine .indirect fun t slot ht hload => h slot ?_
    rw [ht]
    exact (hloads t slot ht).mpr hload

/-- The instructions of a block are resolved one by one. -/
theorem called_resolveInst {f : Func} (hf : f.Unresolved) {b : CodeBlock} (hb : b ∈ f.blocks)
    {insts : List Inst} {scan : CallScan} (hcode : b.insts = scan.before.reverse ++ insts)
    (h : (sweep r.resolveInst scan insts).stop = none)
    (hend : Extends (sweep r.resolveInst scan insts).state.calls.wrappers final) :
    List.Forall₂ (Inst.Called r final f.insts) insts (sweep r.resolveInst scan insts).value := by
  induction insts generalizing scan with
  | nil => exact .nil
  | cons i rest ih =>
    rw [sweep] at h hend ⊢
    cases hstop : (r.resolveInst scan i).stop with
    | some e => simp [hstop] at h
    | none =>
      simp only [hstop] at h hend ⊢
      obtain ⟨hbefore, hstep⟩ := resolveInst_cases hstop
      have hbelow : Extends (r.resolveInst scan i).state.calls.wrappers final :=
        start_of_sweep (B := fun scan => Extends scan.calls.wrappers final)
          (fun scan i h => (extends_resolveInst scan i).trans h) hend
      refine .cons ?_ (ih ?_ h hend)
      · rcases hstep with ⟨hi, hvalue, -⟩ |
          ⟨target, isStatic, state, callee, ws, rfl, hleads, hvalue, hcalls⟩
        · rw [hvalue]
          exact .kept hi
        · rw [hvalue]
          rw [hcalls, wrappers_tally, ← hleads.wrappers_eq] at hbelow
          exact hleads.called hf hb hcode hbelow
      · rw [hcode, hbefore, List.reverse_cons, List.append_assoc]
        rfl

theorem extends_resolveBlock (a : Addr) (calls : Calls) (b : CodeBlock) :
    Extends calls.wrappers (r.resolveBlock a calls b).state.wrappers :=
  state_of_sweep (I := fun scan => Extends calls.wrappers scan.calls.wrappers)
    (fun scan i h => h.trans (extends_resolveInst scan i)) b.insts fun _ _ h => h

theorem extends_resolveFunc (calls : Calls) (f : Func) :
    Extends calls.wrappers (r.resolveFunc calls f).state.wrappers :=
  state_of_sweep (I := fun calls' => Extends calls.wrappers calls'.wrappers)
    (fun calls' b h => h.trans (extends_resolveBlock f.address calls' b)) f.blocks fun _ _ h => h

/-- The calls of functions are resolved one by one. -/
theorem callsResolved_resolveCalls {code : List Func} (hcode : ∀ f ∈ code, f.Unresolved)
    (h : (r.resolveCalls code).stop = none) :
    List.Forall₂ (Func.CallsResolved r (r.resolveCalls code).state.wrappers) code
      (r.resolveCalls code).value := by
  refine forall₂_of_growing_sweep (P := Func.Unresolved)
    (B := fun calls => Extends calls.wrappers (r.resolveCalls code).state.wrappers)
    (fun calls f h => (extends_resolveFunc calls f).trans h) (fun calls f hf hstop hend => ?_)
    hcode h fun _ _ h => h
  refine ⟨rfl, rfl, ?_⟩
  exact forall₂_of_growing_sweep (P := (· ∈ f.blocks))
    (B := fun calls => Extends calls.wrappers (r.resolveCalls code).state.wrappers)
    (fun calls b h => (extends_resolveBlock f.address calls b).trans h)
    (fun calls b hb hstop hend => ⟨rfl, called_resolveInst hf hb rfl hstop hend⟩)
    (fun b hb => hb) hstop hend

end Resolver

end FlowRecovery
