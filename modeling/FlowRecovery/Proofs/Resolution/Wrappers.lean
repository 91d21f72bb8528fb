/-
The names of wrappers.

The wrapper of an import is named after the import.  If a wrapper made before has that
name, the slot is appended to it; the longer name is not looked up again.  It can be the
name of a third import, and then two wrappers have one name.

This is the only way to get there: an import `b` that shares its name with another one,
and a third import whose own name is that of `b` with the slot of `b` appended.

* `Wrapping.insert` — making one more wrapper keeps names apart in tables without such imports;
* `exists_wrapAll_eq` — whatever is resolved, the wrappers come from calls of imports in
  some order;
* `Image.wrappers_distinct_iff` — the wrappers have different names in whatever order
  imports are called, exactly if there are no such imports.
-/
import FlowRecovery.Proofs.Assembly.Labels
import FlowRecovery.Proofs.Module.Functions
import FlowRecovery.Proofs.Resolution.Refusals
import FlowRecovery.Proofs.Resolution.Rewritten

namespace FlowRecovery

/-- The name of the wrapper of an import, if nothing else has it. -/
def Import.wrapperName (i : Import) : String := "import_" ++ plainName i.name

/-- A name with a slot appended. -/
def withSlot (name : String) (slot : Addr) : String := name ++ "_" ++ Text.hex slot

theorem toList_withSlot (name : String) (slot : Addr) :
    (withSlot name slot).toList = name.toList ++ '_' :: (Text.hex slot).toList := by
  simp [withSlot]

/-- Appended slots can be read off. -/
theorem eq_of_withSlot_eq {n n' : String} {a b : Addr} (h : withSlot n a = withSlot n' b) :
    a = b := by
  -- The digits of a slot hold no underscore, so the texts are compared from their ends.
  have hlist := congrArg (fun s : String => s.toList.reverse) h
  simp only [toList_withSlot, List.reverse_append, List.reverse_cons, List.append_assoc,
    List.singleton_append] at hlist
  have hdigits : ∀ c, '_' ∉ (Text.hex c).toList.reverse := fun c hc =>
    Text.underscore_not_mem_hex c (List.mem_reverse.mp hc)
  have heq := (append_underscore_inj (hdigits a) (hdigits b) hlist).1
  exact Text.hex_inj.mp (String.toList_inj.mp (List.reverse_inj.mp heq))

theorem ne_withSlot (name : String) (slot : Addr) : name ≠ withSlot name slot := by
  intro h
  have hlen := congrArg (fun s : String => s.toList.length) h
  simp only [toList_withSlot, List.length_append, List.length_cons] at hlen
  omega

/-- No import is named like one of two that share their name, with the slot of that one
appended. -/
def Image.NamesApart (image : Image) : Prop :=
  ∀ a b c i j k, image.imports.get? a = some i → image.imports.get? b = some j →
    image.imports.get? c = some k → a ≠ b → i.wrapperName = j.wrapperName →
      k.wrapperName ≠ withSlot j.wrapperName b

namespace Resolver

variable {r : Resolver} {wrappers : AddrMap Func} {slot : Addr}

/-- The wrappers after a call of the import at the slot, if there is one. -/
def wrap (r : Resolver) (wrappers : AddrMap Func) (slot : Addr) : AddrMap Func :=
  match r.image.imports.get? slot with
  | some i => (r.importCallee wrappers slot i).2
  | none => wrappers

/-- The wrappers after calls of the imports at the slots, in order. -/
def wrapAll (r : Resolver) (slots : List Addr) : AddrMap Func := slots.foldl r.wrap ∅

theorem wrap_of_contains {w : Func} (h : wrappers.get? slot = some w) :
    r.wrap wrappers slot = wrappers := by
  unfold wrap importCallee
  split
  · rw [h]
  · rfl

theorem wrap_of_new {i : Import} (hi : r.image.imports.get? slot = some i)
    (h : wrappers.get? slot = none) :
    r.wrap wrappers slot = wrappers.insert slot (r.wrapper wrappers slot i) := by
  unfold wrap importCallee
  rw [hi, h]

/-- Some wrapper has the name. -/
def Taken (wrappers : AddrMap Func) (name : String) : Prop :=
  ∃ a w, wrappers.get? a = some w ∧ w.name = name

theorem any_name_iff {name : String} :
    wrappers.values.any (·.name == name) = true ↔ Taken wrappers name := by
  rw [List.any_eq_true]
  constructor
  · rintro ⟨w, hw, hname⟩
    obtain ⟨a, ha⟩ := AddrMap.mem_values.mp hw
    exact ⟨a, w, ha, eq_of_beq hname⟩
  · rintro ⟨a, w, ha, rfl⟩
    exact ⟨w, AddrMap.mem_values.mpr ⟨a, ha⟩, BEq.rfl⟩

theorem wrapper_name_of_taken (r : Resolver) (slot : Addr) {i : Import}
    (h : Taken wrappers i.wrapperName) :
    (r.wrapper wrappers slot i).name = withSlot i.wrapperName slot :=
  if_pos (any_name_iff.mpr h)

theorem wrapper_name_of_free (r : Resolver) (slot : Addr) {i : Import}
    (h : ¬ Taken wrappers i.wrapperName) :
    (r.wrapper wrappers slot i).name = i.wrapperName :=
  if_neg fun hany => h (any_name_iff.mp hany)

/-- What the wrappers of a table whose names are apart are like: different ones have
different names, and one whose name has its slot appended shares its import's name. -/
structure Wrapping (r : Resolver) (wrappers : AddrMap Func) : Prop where
  inj : ∀ a b v w, wrappers.get? a = some v → wrappers.get? b = some w → v.name = w.name → a = b
  names : ∀ a w, wrappers.get? a = some w → ∃ i, r.image.imports.get? a = some i ∧
    (w.name = i.wrapperName ∨ w.name = withSlot i.wrapperName a ∧
      ∃ b j, r.image.imports.get? b = some j ∧ b ≠ a ∧ j.wrapperName = i.wrapperName)

namespace Wrapping

theorem empty : Wrapping r ∅ := ⟨nofun, nofun⟩

/-- A name that is taken is the name of an import. -/
theorem exists_of_taken (h : Wrapping r wrappers) (hapart : r.image.NamesApart) {i : Import}
    (hi : r.image.imports.get? slot = some i) (hnew : wrappers.get? slot = none)
    (ht : Taken wrappers i.wrapperName) :
    ∃ b j, r.image.imports.get? b = some j ∧ b ≠ slot ∧ j.wrapperName = i.wrapperName := by
  obtain ⟨b, w, hw, hname⟩ := ht
  obtain ⟨j, hj, hplain | ⟨hlong, c, k, hk, hne, hshare⟩⟩ := h.names b w hw
  · refine ⟨b, j, hj, ?_, hplain.symm.trans hname⟩
    rintro rfl
    rw [hw] at hnew
    cases hnew
  · exact absurd (hname.symm.trans hlong) (hapart c b slot k j i hk hj hi hne hshare)

/-- A wrapper with a new name can be added. -/
theorem insert_of_free (h : Wrapping r wrappers) {w : Func} (hfree : ¬ Taken wrappers w.name)
    {i : Import} (hi : r.image.imports.get? slot = some i)
    (hname : w.name = i.wrapperName ∨ w.name = withSlot i.wrapperName slot ∧
      ∃ b j, r.image.imports.get? b = some j ∧ b ≠ slot ∧ j.wrapperName = i.wrapperName) :
    Wrapping r (wrappers.insert slot w) := by
  refine ⟨fun a b u v hu hv heq => ?_, fun a v hv => ?_⟩
  · rw [AddrMap.get?_insert] at hu hv
    split at hu <;> split at hv
    · next ha hb => exact ha.trans hb.symm
    · cases hu
      exact absurd ⟨b, v, hv, heq.symm⟩ hfree
    · cases hv
      exact absurd ⟨a, u, hu, heq⟩ hfree
    · exact h.inj a b u v hu hv heq
  · rw [AddrMap.get?_insert] at hv
    split at hv
    · next ha =>
      cases hv
      exact ⟨i, ha ▸ hi, ha ▸ hname⟩
    · exact h.names a v hv

theorem insert (h : Wrapping r wrappers) (hapart : r.image.NamesApart) {i : Import}
    (hi : r.image.imports.get? slot = some i) (hnew : wrappers.get? slot = none) :
    Wrapping r (wrappers.insert slot (r.wrapper wrappers slot i)) := by
  by_cases ht : Taken wrappers i.wrapperName
  · obtain ⟨b, j, hj, hne, hshare⟩ := h.exists_of_taken hapart hi hnew ht
    have hname := wrapper_name_of_taken r slot ht
    refine h.insert_of_free ?_ hi (Or.inr ⟨hname, b, j, hj, hne, hshare⟩)
    -- The longer name is no import's own name, and other slots make other long names.
    rw [hname]
    rintro ⟨c, w, hw, hwname⟩
    obtain ⟨k, hk, hplain | ⟨hlong, -⟩⟩ := h.names c w hw
    · exact hapart b slot c j i k hj hi hk hne hshare (hplain.symm.trans hwname)
    · obtain rfl := eq_of_withSlot_eq (hlong.symm.trans hwname)
      rw [hw] at hnew
      cases hnew
  · have hname := wrapper_name_of_free r slot ht
    exact h.insert_of_free (hname ▸ ht) hi (Or.inl hname)

theorem wrap (h : Wrapping r wrappers) (hapart : r.image.NamesApart) (slot : Addr) :
    Wrapping r (r.wrap wrappers slot) := by
  cases hi : r.image.imports.get? slot with
  | none =>
    rw [Resolver.wrap, hi]
    exact h
  | some i =>
    cases hnew : wrappers.get? slot with
    | some w =>
      rw [wrap_of_contains hnew]
      exact h
    | none =>
      rw [wrap_of_new hi hnew]
      exact h.insert hapart hi hnew

theorem wrapAll (hapart : r.image.NamesApart) (slots : List Addr) :
    Wrapping r (r.wrapAll slots) := by
  have hfold : ∀ (l : List Addr) (wrappers : AddrMap Func), Wrapping r wrappers →
      Wrapping r (l.foldl r.wrap wrappers) := by
    intro l
    induction l with
    | nil => exact fun _ h => h
    | cons slot l ih => exact fun _ h => ih _ (h.wrap hapart slot)
  exact hfold slots ∅ .empty

theorem nodup (h : Wrapping r wrappers) : (wrappers.values.map (·.name)).Nodup := by
  have hkeys : (wrappers.entries.map (·.1)).Nodup :=
    wrappers.keys_pairwise.imp fun hlt heq => UInt64.ne_of_lt hlt heq
  rw [AddrMap.values, List.map_map]
  refine List.Nodup.map_on (fun e he e' he' heq => ?_) (hkeys.of_map _)
  have hget := AddrMap.mem_entries_iff.mp he
  have hget' := AddrMap.mem_entries_iff.mp he'
  have hkey := h.inj _ _ _ _ hget hget' heq
  rw [← hkey, hget] at hget'
  exact Prod.ext hkey (Option.some.inj hget')

end Wrapping

/-- Two wrappers of one name. -/
theorem not_nodup_names {a b : Addr} {v w : Func} (hv : wrappers.get? a = some v)
    (hw : wrappers.get? b = some w) (hne : a ≠ b) (hname : v.name = w.name) :
    ¬ (wrappers.values.map (·.name)).Nodup := by
  intro h
  rw [AddrMap.values, List.map_map] at h
  have heq := List.inj_on_of_nodup_map h (AddrMap.mem_entries_iff.mpr hv)
    (AddrMap.mem_entries_iff.mpr hw) hname
  exact hne (congrArg Prod.fst heq)

/-- Imports whose names are not apart make two wrappers of one name. -/
theorem exists_clash {a b c : Addr} {i j k : Import} (hi : r.image.imports.get? a = some i)
    (hj : r.image.imports.get? b = some j) (hk : r.image.imports.get? c = some k) (hab : a ≠ b)
    (hshare : i.wrapperName = j.wrapperName)
    (hclash : k.wrapperName = withSlot j.wrapperName b) :
    ¬ ((r.wrapAll [a, c, b]).values.map (·.name)).Nodup := by
  have hlong : k.wrapperName ≠ j.wrapperName := fun heq =>
    ne_withSlot _ _ (heq.symm.trans hclash)
  have hca : c ≠ a := by
    rintro rfl
    rw [hk, Option.some.injEq] at hi
    exact hlong (hi ▸ hshare)
  have hcb : c ≠ b := by
    rintro rfl
    rw [hk, Option.some.injEq] at hj
    exact hlong (congrArg Import.wrapperName hj)
  -- The first two get the names of their imports.
  have hfirst : (r.wrapper ∅ a i).name = i.wrapperName := wrapper_name_of_free r a nofun
  have h₁ : r.wrap ∅ a = AddrMap.insert ∅ a (r.wrapper ∅ a i) := wrap_of_new hi rfl
  have hsecond : (r.wrapper (r.wrap ∅ a) c k).name = k.wrapperName := by
    refine wrapper_name_of_free r c ?_
    rintro ⟨x, w, hw, hname⟩
    rw [h₁, AddrMap.get?_insert] at hw
    split at hw
    · cases hw
      exact hlong (hname.symm.trans (hfirst.trans hshare))
    · cases hw
  have h₂ : r.wrap (r.wrap ∅ a) c = (r.wrap ∅ a).insert c (r.wrapper (r.wrap ∅ a) c k) := by
    refine wrap_of_new hk ?_
    rw [h₁, AddrMap.get?_insert, if_neg hca]
    rfl
  -- The third import finds its name taken and gets the name of the second.
  have htaken : Taken (r.wrap (r.wrap ∅ a) c) j.wrapperName := by
    refine ⟨a, r.wrapper ∅ a i, ?_, hfirst.trans hshare⟩
    rw [h₂, AddrMap.get?_insert, if_neg hca.symm, h₁, AddrMap.get?_insert, if_pos rfl]
  have hthird := wrapper_name_of_taken r b htaken
  have h₃ : r.wrapAll [a, c, b] = (r.wrap (r.wrap ∅ a) c).insert b
      (r.wrapper (r.wrap (r.wrap ∅ a) c) b j) := by
    refine wrap_of_new hj ?_
    rw [h₂, AddrMap.get?_insert, if_neg hcb.symm, h₁, AddrMap.get?_insert, if_neg hab.symm]
    rfl
  refine not_nodup_names (a := c) (b := b) (v := r.wrapper (r.wrap ∅ a) c k) ?_ ?_ hcb
    (hsecond.trans (hclash.trans hthird.symm))
  · rw [h₃, AddrMap.get?_insert, if_neg hcb, h₂, AddrMap.get?_insert, if_pos rfl]
  · rw [h₃, AddrMap.get?_insert, if_pos rfl]

/-! ### The calls that make wrappers -/

theorem importAt?_eq_some {a : Addr} {i : Import} (h : r.importAt? a = some (slot, i)) :
    slot = a ∧ r.image.imports.get? a = some i := by
  obtain ⟨j, hj, heq⟩ := Option.map_eq_some_iff.mp h
  cases heq
  exact ⟨rfl, hj⟩

/-- A call of an import goes to the wrapper at its slot. -/
theorem importCallee_eq {i : Import} (hi : r.image.imports.get? slot = some i)
    (wrappers : AddrMap Func) : ∃ w, (r.wrap wrappers slot).get? slot = some w ∧
      r.importCallee wrappers slot i = (.imported w.name i.name slot, r.wrap wrappers slot) := by
  have hsnd : r.wrap wrappers slot = (r.importCallee wrappers slot i).2 := by rw [wrap, hi]
  rw [hsnd]
  unfold importCallee
  split
  · next w hw => exact ⟨w, hw, rfl⟩
  · exact ⟨r.wrapper wrappers slot i, by rw [AddrMap.get?_insert, if_pos rfl], rfl⟩

/-- What a call marker leads to, and the wrappers behind the call. -/
inductive Leads (r : Resolver) (scan : CallScan) (target : Operand) :
    Bool → Callee → AddrMap Func → Prop
  | function {name : String}
      (h : r.functions.get? (target.staticAddress?.getD 0) = some name) :
      Leads r scan target true (.function name (target.staticAddress?.getD 0)) scan.calls.wrappers
  | stub {slot : Addr} {i : Import} {w : Func}
      (h : r.functions.get? (target.staticAddress?.getD 0) = none)
      (hslot : (r.stubSlot? (target.staticAddress?.getD 0) : Checked ResolveError _)
        = .ok (some slot))
      (hi : r.image.imports.get? slot = some i)
      (hw : (r.wrap scan.calls.wrappers slot).get? slot = some w) :
      Leads r scan target true (.imported w.name i.name slot) (r.wrap scan.calls.wrappers slot)
  | loaded {slot : Addr} {i : Import} {w : Func}
      (hslot : target.temp?.bind (loadedFrom? · scan.before) = some slot)
      (hi : r.image.imports.get? slot = some i)
      (hw : (r.wrap scan.calls.wrappers slot).get? slot = some w) :
      Leads r scan target false (.imported w.name i.name slot) (r.wrap scan.calls.wrappers slot)
  | indirect (h : ∀ slot, target.temp?.bind (loadedFrom? · scan.before) = some slot →
        r.image.imports.get? slot = none) :
      Leads r scan target false (.indirect target) scan.calls.wrappers

theorem leads_of_callee {scan : CallScan} {target : Operand} {isStatic : Bool} {callee : Callee}
    (h : r.callee scan target isStatic = .ok (callee, wrappers)) :
    r.Leads scan target isStatic callee wrappers := by
  simp only [Resolver.callee] at h
  cases isStatic with
  | true =>
    simp only [if_true] at h
    split at h
    · next name hname =>
      cases h
      exact .function hname
    · next hnone =>
      obtain ⟨slot?, hslot, h⟩ := Checked.bind_eq_ok.mp h
      split at h
      · next slot i hat =>
        obtain ⟨a, rfl, hat⟩ := Option.bind_eq_some_iff.mp hat
        obtain ⟨rfl, hi⟩ := importAt?_eq_some hat
        obtain ⟨w, hw, heq⟩ := importCallee_eq hi scan.calls.wrappers
        cases heq.symm.trans (Except.ok.inj h)
        exact .stub hnone hslot hi hw
      · exact absurd h Checked.refuse_ne_ok
  | false =>
    simp only [Bool.false_eq_true, if_false] at h
    split at h
    · next slot i hat =>
      obtain ⟨a, hslot, hat⟩ := Option.bind_eq_some_iff.mp hat
      obtain ⟨rfl, hi⟩ := importAt?_eq_some hat
      obtain ⟨w, hw, heq⟩ := importCallee_eq hi scan.calls.wrappers
      cases heq.symm.trans (Except.ok.inj h)
      exact .loaded hslot hi hw
    · next hat =>
      cases h
      refine .indirect fun slot hslot => ?_
      rw [hslot] at hat
      exact Option.map_eq_none_iff.mp hat

end Resolver

/-- The slot of the import that is called. -/
def Callee.slot? : Callee → Option Addr
  | .imported _ _ slot => some slot
  | _ => none

theorem Resolver.Leads.wrappers_eq {r : Resolver} {scan : CallScan} {target : Operand}
    {isStatic : Bool} {callee : Callee} {wrappers : AddrMap Func}
    (h : r.Leads scan target isStatic callee wrappers) :
    wrappers = callee.slot?.toList.foldl r.wrap scan.calls.wrappers := by
  cases h <;> rfl

namespace Resolver

variable (r : Resolver)

/-- The wrappers come from calls of imports. -/
def FromCalls (calls : Calls) : Prop := ∃ slots, calls.wrappers = r.wrapAll slots

theorem fromCalls_resolveInst (scan : CallScan) (i : Inst) (h : r.FromCalls scan.calls) :
    r.FromCalls (r.resolveInst scan i).state.calls := by
  unfold resolveInst
  split
  · exact h
  · split
    · exact h
    · next callee wrappers hc =>
      obtain ⟨slots, hslots⟩ := h
      have hcount : (count scan.calls wrappers callee).wrappers = wrappers := by
        cases callee <;> rfl
      refine ⟨slots ++ callee.slot?.toList, hcount.trans ?_⟩
      rw [wrapAll, List.foldl_append, ← wrapAll, ← hslots]
      exact (leads_of_callee hc).wrappers_eq
  · exact h

/-- Whatever is resolved, the wrappers come from calls of imports. -/
theorem exists_wrapAll_eq (code : List Func) :
    ∃ slots, (r.resolveCalls code).state.wrappers = r.wrapAll slots := by
  have hblock : ∀ a calls b, r.FromCalls calls → r.FromCalls (r.resolveBlock a calls b).state :=
    fun a calls b h => state_of_sweep (I := fun scan => r.FromCalls scan.calls)
      (fun scan i => r.fromCalls_resolveInst scan i) b.insts h
  have hfunc : ∀ calls f, r.FromCalls calls → r.FromCalls (r.resolveFunc calls f).state :=
    fun calls f h => state_of_sweep (hblock f.address) f.blocks h
  exact state_of_sweep hfunc code ⟨[], rfl⟩

/-- A function that calls the import at the slot. -/
def calling (slot : Addr) : Func :=
  { name := "", address := 0, nextTemp := 1
    blocks := [{ label := ""
                 insts := [.load 0 (.const slot) 8, .callMarker (.temp 0) false .env] }] }

theorem resolveFunc_calling {slot : Addr} {i : Import} (hi : r.image.imports.get? slot = some i)
    (calls : Calls) : (r.resolveFunc calls (calling slot)).stop = none ∧
      (r.resolveFunc calls (calling slot)).state.wrappers = r.wrap calls.wrappers slot := by
  obtain ⟨w, -, heq⟩ := importCallee_eq hi calls.wrappers
  have hcallee : r.callee { calls, site := 0, before := [.load 0 (.const slot) 8] } (.temp 0) false
      = .ok (.imported w.name i.name slot, r.wrap calls.wrappers slot) := by
    simp [callee, loadedFrom?, Operand.temp?, Operand.staticAddress?, importAt?, hi, heq, pure,
      Except.pure]
  simp [resolveFunc, Func.sweepBlocks, calling, sweep, resolveBlock, CodeBlock.sweepInsts,
    resolveInst, hcallee, count]

/-- Imports can be called in any order. -/
theorem wrappers_calling {slots : List Addr}
    (h : ∀ a ∈ slots, ∃ i, r.image.imports.get? a = some i) :
    (r.resolveCalls (slots.map calling)).state.wrappers = r.wrapAll slots := by
  have hall : ∀ (l : List Addr) (calls : Calls), (∀ a ∈ l, ∃ i, r.image.imports.get? a = some i) →
      (sweep r.resolveFunc calls (l.map calling)).state.wrappers
        = l.foldl r.wrap calls.wrappers := by
    intro l
    induction l with
    | nil => exact fun _ _ => rfl
    | cons a l ih =>
      intro calls hl
      obtain ⟨⟨i, hi⟩, hl⟩ := List.forall_mem_cons.mp hl
      obtain ⟨hstop, hwrappers⟩ := r.resolveFunc_calling hi calls
      rw [List.map_cons, sweep, hstop]
      exact (ih _ hl).trans (by rw [hwrappers]; rfl)
  exact hall slots {} h

/-- Wrappers have different names, whatever is called in whatever order, exactly if the
names of the imports are apart. -/
theorem namesApart_iff : r.image.NamesApart ↔
    ∀ code, ((r.resolveCalls code).state.wrappers.values.map (·.name)).Nodup := by
  constructor
  · intro hapart code
    obtain ⟨slots, hslots⟩ := r.exists_wrapAll_eq code
    rw [hslots]
    exact (Wrapping.wrapAll hapart slots).nodup
  · intro h a b c i j k hi hj hk hab hshare hclash
    refine exists_clash hi hj hk hab hshare hclash ?_
    rw [← r.wrappers_calling]
    · exact h _
    · simp [hi, hj, hk]

end Resolver

/-! ### The check of the module -/

namespace Module

/-- A name that comes again is in front of itself. -/
theorem checkFunctions_eq_error {names : List String} {l : List Func} {name : String}
    (h : checkFunctions names l = .error (.module (.duplicateFunction name))) :
    ∃ before after, l.map (·.name) = before ++ name :: after ∧ (name ∈ names ∨ name ∈ before) := by
  induction l generalizing names with
  | nil => cases h
  | cons f l ih =>
    rw [checkFunctions] at h
    cases hf : f.verify with
    | error e =>
      -- The fault of a function is none of the module.
      rw [hf] at h
      cases h
      obtain ⟨_, -, hfault⟩ := exists_of_mapError hf
      cases hfault
    | ok u =>
      rw [hf] at h
      simp only [bind, Except.bind] at h
      split at h
      · next hmem =>
        cases h
        exact ⟨[], l.map (·.name), rfl, Or.inl hmem⟩
      · obtain ⟨before, after, hl, hname⟩ := ih h
        refine ⟨f.name :: before, after, congrArg (f.name :: ·) hl, ?_⟩
        rcases hname with hname | hname
        · exact (List.mem_cons.mp hname).elim (fun heq => Or.inr (heq ▸ List.mem_cons_self)) Or.inl
        · exact Or.inr (List.mem_cons_of_mem _ hname)

/-- Only the first part of the check finds names that come again. -/
theorem checkFunctions_of_verify {m : Module} {name : String}
    (h : m.verify = .error (.module (.duplicateFunction name))) :
    checkFunctions [] m.allFunctions = .error (.module (.duplicateFunction name)) := by
  unfold verify at h
  cases hc : checkFunctions [] m.allFunctions with
  | error e =>
    rw [hc] at h
    exact congrArg Except.error (Except.error.inj h)
  | ok _ =>
    rw [hc] at h
    obtain ⟨f, -, hf⟩ := exists_of_forM_eq_error h
    obtain ⟨i, -, hi⟩ := exists_of_forM_eq_error hf
    obtain ⟨_, -, hfault⟩ := exists_of_mapError hi
    cases hfault

/-- If the wrappers have different names, one that comes again is the name of a function. -/
theorem mem_names_of_verify {m : Module} (hnodup : (m.wrappers.map (·.name)).Nodup) {name : String}
    (h : m.verify = .error (.module (.duplicateFunction name))) :
    name ∈ m.functions.map (·.name) := by
  obtain ⟨before, after, hnames, hmem⟩ := checkFunctions_eq_error (checkFunctions_of_verify h)
  have hmem := hmem.resolve_left List.not_mem_nil
  rw [allFunctions, List.map_append] at hnames
  rcases List.append_eq_append_iff.mp hnames with ⟨middle, rfl, hwrappers⟩ | ⟨middle, hfunctions, -⟩
  · -- The second time it is the name of a wrapper, so the first time it is none.
    rw [hwrappers, List.nodup_append] at hnodup
    rcases List.mem_append.mp hmem with hmem | hmem
    · exact hmem
    · exact absurd rfl (hnodup.2.2 name hmem name List.mem_cons_self)
  · rw [hfunctions]
    exact List.mem_append_left _ hmem

end Module

/-- Resolving calls keeps the names of the functions. -/
theorem Resolver.names_resolveCalls (r : Resolver) (functions : List Func) :
    ((r.resolveCalls (functions.map r.replaceInFunc)).value.map (·.name))
      = functions.map (·.name) := by
  rw [resolveCalls, map_sweep (fun _ _ => rfl), List.map_map]
  rfl

/-- If the names of the imports are apart, a name that comes again in a module is the name of
one of its functions. -/
theorem Image.NamesApart.mem_names {image : Image} (h : image.NamesApart) {m : Module}
    {store : Store} (hs : store.Sound) {name : String}
    (hname : (m.resolve image store).2 =
      .error (.refused (.verify (.module (.duplicateFunction name))))) :
    name ∈ m.functions.map (·.name) := by
  simp only [Module.resolve] at hname
  split at hname
  · next e hstop =>
    cases hname
    obtain ⟨site, value, hvalue | hvalue⟩ := Resolver.stop_patchAll hs hstop <;> cases hvalue
  · rw [Resolver.map_replaceInFunc_patchAll] at hname
    split at hname
    · next e hstop =>
      cases hname
      obtain ⟨f, -, target, state, site, -, -, hvalue⟩ := Resolver.stop_resolveCalls hs hstop
      cases hvalue
    · obtain ⟨reason, hverify, hreason⟩ := Checked.map_lift_eq_error hname
      cases hreason
      obtain ⟨fault, hfault, heq⟩ := exists_of_mapError hverify
      cases heq
      have hnodup := (Resolver.ofModule image store m).namesApart_iff.mp h
        (m.functions.map (Resolver.ofModule image store m).replaceInFunc)
      have hmem := Module.mem_names_of_verify hnodup hfault
      rwa [Resolver.names_resolveCalls] at hmem

/-- **When wrappers clash.**  The wrappers made for an image have different names, whatever is
called in whatever order, exactly if no import is named like one of two that share their
name, with the slot of that one appended.  For such an image a module is never refused for
the names of its wrappers alone: a name that comes again is the name of a function. -/
theorem Image.wrappers_distinct_iff (image : Image) :
    (image.NamesApart ↔ ∀ (r : Resolver) (code : List Func), r.image = image →
      ((r.resolveCalls code).state.wrappers.values.map (·.name)).Nodup) ∧
    (image.NamesApart → ∀ (m : Module) (store : Store) (name : String), store.Built →
      (m.resolve image store).2 =
          .error (.refused (.verify (.module (.duplicateFunction name)))) →
        name ∈ m.functions.map (·.name)) := by
  refine ⟨⟨fun hapart r code himage => ?_, fun h => ?_⟩, fun hapart m store name hs hname => ?_⟩
  · exact r.namesApart_iff.mp (himage ▸ hapart) code
  · let r : Resolver := { image, store := {}, functions := ∅ }
    exact r.namesApart_iff.mpr fun code => h r code rfl
  · exact hapart.mem_names hs.sound hname

/-- An image with two imports of one name, and one that is named like the second of them with
its slot. -/
def Image.aliases : Image :=
  { arch := .x86_64
    sections := []
    imports := .ofList [(0x4000, { name := "f", library := none }),
      (0x4008, { name := "f_4010", library := none }), (0x4010, { name := "f", library := none })]
    relocations := [] }

/-- A function that calls the three imports through their slots. -/
def Module.aliases : Module :=
  { name := "m"
    functions := [{ name := "main", address := 0x1000, nextTemp := 3
                    blocks := [{ label := "bb_1000"
                                 insts := [.marker 0x1000, .load 0 (.const 0x4000) 8,
                                   .callMarker (.temp 0) false .env, .load 1 (.const 0x4008) 8,
                                   .callMarker (.temp 1) false .env, .load 2 (.const 0x4010) 8,
                                   .callMarker (.temp 2) false .env, .ret] }] }] }

/-- The names of these imports are not apart, and the module that calls them in order is
refused: the second and the third wrapper have the same name. -/
theorem Image.wrappers_clash_aliases :
    (Module.aliases.resolve .aliases {}).1.wrappers.map (fun w => (w.address, w.name))
        = [(0x4000, "import_f"), (0x4008, "import_f_4010"), (0x4010, "import_f_4010")] ∧
      (Module.aliases.resolve .aliases {}).2
        = .error (.refused (.verify (.module (.duplicateFunction "import_f_4010")))) ∧
      ¬ Image.aliases.NamesApart := by
  have hf : Image.aliases.imports.get? 0x4000 = some { name := "f", library := none } := by
    decide +kernel
  have hlong : Image.aliases.imports.get? 0x4008 = some { name := "f_4010", library := none } := by
    decide +kernel
  have hf' : Image.aliases.imports.get? 0x4010 = some { name := "f", library := none } := by
    decide +kernel
  have hclash : ({ name := "f_4010", library := none } : Import).wrapperName
      = withSlot ({ name := "f", library := none } : Import).wrapperName 0x4010 := by
    decide +kernel
  exact ⟨by decide +kernel, by decide +kernel,
    fun h => h _ _ _ _ _ _ hf hf' hlong (by decide) rfl hclash⟩

end FlowRecovery
