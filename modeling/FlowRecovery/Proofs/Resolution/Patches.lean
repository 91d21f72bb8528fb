/-
Relocations are checked, not applied.

A relocation replaces a number in its instruction by the reference that the number stands
for.  All numbers are replaced like this afterwards, so nothing is left of a relocation but
its success.  And as no relocation takes what another one looks for, their order does not
matter.

* `Resolver.patched?` — what a relocation makes of functions, without the state of the run;
* `Resolver.patchAll_eq` — a run is a fold of that, and a count;
* `Resolver.patched?_comm`, `Resolver.patchedAll?_perm` — relocations can come in any order;
* `Resolver.patched?_cases` — a relocation that counts changes one operand of each function
  that has its instruction;
* `Resolver.patchAll_exact` — the whole of it, for assembled functions.
-/
import FlowRecovery.Proofs.Assembly.Content
import FlowRecovery.Proofs.Resolution.Spans
import FlowRecovery.Proofs.Store.Halting

namespace FlowRecovery

/-! ### A relocation without the state of the run -/

/-- A step that changes items by a partial function, and notes whether it has seen one of
a kind. -/
structure Finds {ε α : Type} (f : Bool → α → Swept ε Bool α) (g : α → Option α) (p : α → Bool) :
    Prop where
  done : ∀ seen a b, g a = some b → f seen a = { state := seen || p a, value := b }
  stop : ∀ seen a, g a = none → (f seen a).stop ≠ none

theorem Finds.sweep {ε α : Type} {f : Bool → α → Swept ε Bool α} {g : α → Option α} {p : α → Bool}
    (h : Finds f g p) : Finds (FlowRecovery.sweep f) (List.mapM g) (List.any · p) := by
  constructor
  · intro seen l
    induction l generalizing seen with
    | nil =>
      intro l' hl'
      cases hl'
      simp [FlowRecovery.sweep]
    | cons a l ih =>
      intro l' hl'
      rw [List.mapM_cons] at hl'
      obtain ⟨b, hb, hl'⟩ := Option.bind_eq_some_iff.mp hl'
      obtain ⟨l'', hl, hl'⟩ := Option.bind_eq_some_iff.mp hl'
      cases hl'
      simp [FlowRecovery.sweep, h.done seen a b hb, ih _ l'' hl, Bool.or_assoc]
  · intro seen l
    induction l generalizing seen with
    | nil =>
      intro hl
      cases hl
    | cons a l ih =>
      intro hl
      rw [List.mapM_cons] at hl
      rw [FlowRecovery.sweep]
      cases hb : g a with
      | none =>
        obtain ⟨e, he⟩ := Option.ne_none_iff_exists'.mp (h.stop seen a hb)
        simp [he]
      | some b =>
        have hl : l.mapM g = none := by
          cases hm : l.mapM g with
          | none => rfl
          | some l' => simp [hb, hm] at hl
        rw [h.done seen a b hb]
        exact ih _ hl

namespace Resolver

variable (r : Resolver) (reloc : Relocation) (pc : Addr)

/-- What a relocation makes of a block, if it does not refuse it. -/
def patchedBlock? (b : CodeBlock) : Option CodeBlock :=
  (editAt pc (r.edit reloc.value) b.insts).map fun insts => { b with insts }

/-- What a relocation makes of a function, if it does not refuse it. -/
def patchedFunc? (f : Func) : Option Func :=
  (f.blocks.mapM (r.patchedBlock? reloc pc)).map fun blocks => { f with blocks }

/-- What a relocation makes of functions, if it does not refuse them. -/
def patched? (functions : List Func) : Option (List Func) :=
  match (r.relocated? reloc : Checked ResolveError _) with
  | .error _ => none
  | .ok none => some functions
  | .ok (some pc) => functions.mapM (r.patchedFunc? reloc pc)

variable {r reloc pc}

theorem patched?_of_error {e : Stop ResolveError}
    (h : (r.relocated? reloc : Checked ResolveError _) = .error e) :
    r.patched? reloc = fun _ => none := by
  funext functions
  rw [patched?, h]

theorem patched?_of_nowhere (h : (r.relocated? reloc : Checked ResolveError _) = .ok none) :
    r.patched? reloc = some := by
  funext functions
  rw [patched?, h]

theorem patched?_of_somewhere (h : (r.relocated? reloc : Checked ResolveError _) = .ok (some pc)) :
    r.patched? reloc = List.mapM (r.patchedFunc? reloc pc) := by
  funext functions
  rw [patched?, h]

end Resolver

theorem Func.mem_markers {pc : Addr} {f : Func} :
    pc ∈ markers f.insts ↔ ∃ b ∈ f.blocks, pc ∈ markers b.insts := by
  simp only [Func.insts, markers, List.filterMap_flatMap, List.mem_flatMap]

namespace Resolver

variable {r : Resolver} {reloc : Relocation} {pc : Addr}

theorem finds_patchBlock (r : Resolver) (reloc : Relocation) (pc : Addr) :
    Finds (r.patchBlock reloc pc) (r.patchedBlock? reloc pc)
      fun b => decide (pc ∈ markers b.insts) := by
  constructor
  · intro located b b' hb
    obtain ⟨insts, hedit, rfl⟩ := Option.map_eq_some_iff.mp hb
    by_cases hmem : pc ∈ markers b.insts
    · cases hnew : r.classify reloc.value with
      | none =>
        rw [edit_of_none hnew, editAt_none hmem] at hedit
        cases hedit
      | some new =>
        rw [edit_of_some hnew] at hedit
        rcases editAt_replaceInSpan (.const reloc.value) new hmem with
          ⟨-, hnone⟩ | ⟨l, hsite, hsome⟩
        · rw [hnone] at hedit
          cases hedit
        · rw [hsome] at hedit
          cases hedit
          simp [patchBlock, hnew, hsite, hmem]
    · rw [editAt_of_not_mem _ hmem] at hedit
      cases hedit
      simp [patchBlock, replaceAt_of_not_mem hmem, hmem]
  · intro located b hb
    have hedit := Option.map_eq_none_iff.mp hb
    by_cases hmem : pc ∈ markers b.insts
    · rcases editAt_replaceInSpan (.const reloc.value)
        ((r.classify reloc.value).getD (.const reloc.value)) hmem with
        ⟨hsite, -⟩ | ⟨l, hsite, hsome⟩
      · simp [patchBlock, hsite]
      · cases hnew : r.classify reloc.value with
        | none =>
          rw [hnew, Option.getD_none] at hsite
          simp [patchBlock, hnew, hsite]
        | some new =>
          rw [hnew, Option.getD_some] at hsome
          rw [edit_of_some hnew, hsome] at hedit
          cases hedit
    · rw [editAt_of_not_mem _ hmem] at hedit
      cases hedit

theorem finds_sweepBlocks (r : Resolver) (reloc : Relocation) (pc : Addr) :
    Finds (Func.sweepBlocks (r.patchBlock reloc pc)) (r.patchedFunc? reloc pc)
      fun f => decide (pc ∈ markers f.insts) := by
  have hblocks := (r.finds_patchBlock reloc pc).sweep
  have hany : ∀ f : Func, (f.blocks.any fun b => decide (pc ∈ markers b.insts))
      = decide (pc ∈ markers f.insts) := by
    intro f
    rw [Bool.eq_iff_iff]
    simp [Func.mem_markers]
  constructor
  · intro located f f' hf
    obtain ⟨blocks, hb, rfl⟩ := Option.map_eq_some_iff.mp hf
    rw [Func.sweepBlocks, hblocks.done located f.blocks blocks hb, hany]
  · intro located f hf
    exact hblocks.stop located f.blocks (Option.map_eq_none_iff.mp hf)

/-- Whether the relocation counts: its instruction is in one of the functions. -/
def counts (r : Resolver) (functions : List Func) (reloc : Relocation) : Bool :=
  match (r.relocated? reloc : Checked ResolveError _) with
  | .ok (some pc) => functions.any fun f => decide (pc ∈ markers f.insts)
  | _ => false

/-- Count relocations that count, and those that do not. -/
def tallied (r : Resolver) (functions : List Func) (relocs : List Relocation)
    (stats : ResolveStats) : ResolveStats :=
  { stats with
    relocations := stats.relocations + relocs.countP (r.counts functions)
    skippedRelocations := stats.skippedRelocations + relocs.countP (!r.counts functions ·) }

variable {functions out : List Func} {stats : ResolveStats}

theorem patch_of_some (h : r.patched? reloc functions = some out) :
    r.patch stats functions reloc
      = { state := r.tallied functions [reloc] stats, value := out } := by
  cases hat : (r.relocated? reloc : Checked ResolveError _) with
  | error e =>
    rw [patched?_of_error hat] at h
    cases h
  | ok found =>
    cases found with
    | none =>
      rw [patched?_of_nowhere hat] at h
      cases h
      simp [patch, tallied, counts, hat]
    | some pc =>
      rw [patched?_of_somewhere hat] at h
      have hswept := (r.finds_sweepBlocks reloc pc).sweep.done false functions out h
      cases hin : functions.any fun f => decide (pc ∈ markers f.insts) <;>
        simp [patch, hswept, tallied, counts, hat, hin]

theorem stop_patch_of_none (stats : ResolveStats) (h : r.patched? reloc functions = none) :
    (r.patch stats functions reloc).stop ≠ none := by
  rw [patch]
  cases hat : (r.relocated? reloc : Checked ResolveError _) with
  | error e => exact Option.some_ne_none e
  | ok found =>
    cases found with
    | none =>
      rw [patched?_of_nowhere hat] at h
      cases h
    | some pc =>
      rw [patched?_of_somewhere hat] at h
      exact (r.finds_sweepBlocks reloc pc).sweep.stop false functions h

end Resolver

/-! ### Markers stay where they are -/

namespace Resolver

variable {r : Resolver} {reloc : Relocation} {pc : Addr} {functions out : List Func}

theorem markers_patchedFunc? {f f' : Func} (h : r.patchedFunc? reloc pc f = some f') :
    markers f'.insts = markers f.insts := by
  obtain ⟨blocks, hblocks, rfl⟩ := Option.map_eq_some_iff.mp h
  have hmap := map_of_mapM (V := fun b : CodeBlock => markers b.insts) (fun b b' hb => by
    obtain ⟨insts, hinsts, rfl⟩ := Option.map_eq_some_iff.mp hb
    exact markers_editAt hinsts) hblocks
  rw [Func.insts, Func.insts, markers, markers, List.filterMap_flatMap, List.filterMap_flatMap,
    List.flatMap_def, List.flatMap_def]
  exact congrArg List.flatten hmap

theorem map_markers_of_patched? (h : r.patched? reloc functions = some out) :
    out.map (fun f => markers f.insts) = functions.map fun f => markers f.insts := by
  unfold patched? at h
  split at h
  · cases h
  · cases h
    rfl
  · exact map_of_mapM (fun _ _ => markers_patchedFunc?) h

/-- What counts is the same for patched functions. -/
theorem counts_of_map_eq
    (h : out.map (fun f => markers f.insts) = functions.map fun f => markers f.insts) :
    r.counts out = r.counts functions := by
  have hany : ∀ (pc : Addr) (l : List Func), (l.any fun f => decide (pc ∈ markers f.insts))
      = (l.map fun f => markers f.insts).any fun ms => decide (pc ∈ ms) := by
    intro pc l
    rw [List.any_map]
    rfl
  funext reloc
  unfold counts
  split
  · rw [hany, hany, h]
  · rfl

/-! ### The whole run -/

/-- What relocations make of functions one after the other. -/
def patchedAll? (r : Resolver) (functions : Option (List Func)) (relocs : List Relocation) :
    Option (List Func) :=
  relocs.foldl (fun functions reloc => functions.bind (r.patched? reloc)) functions

theorem patchedAll?_none (relocs : List Relocation) : r.patchedAll? none relocs = none := by
  induction relocs with
  | nil => rfl
  | cons reloc rest ih => exact ih

/-- A run is stopped where a relocation refuses what it finds; else it counts. -/
theorem patchAll_eq (relocs : List Relocation) (functions : List Func) (stats : ResolveStats) :
    (r.patchedAll? (some functions) relocs = none →
      (r.patchAll stats functions relocs).stop ≠ none) ∧
    ∀ out, r.patchedAll? (some functions) relocs = some out →
      r.patchAll stats functions relocs
          = { state := r.tallied functions relocs stats, value := out } ∧
        out.map (fun f => markers f.insts) = functions.map fun f => markers f.insts := by
  induction relocs generalizing functions stats with
  | nil =>
    refine ⟨?_, ?_⟩
    · intro hnone
      cases hnone
    · intro out hout
      cases hout
      exact ⟨rfl, rfl⟩
  | cons reloc rest ih =>
    rw [patchedAll?, List.foldl_cons, Option.bind_some, ← patchedAll?, patchAll]
    cases hone : r.patched? reloc functions with
    | none =>
      obtain ⟨e, he⟩ := Option.ne_none_iff_exists'.mp (stop_patch_of_none stats hone)
      simp only [he, patchedAll?_none]
      refine ⟨fun _ => Option.some_ne_none e, ?_⟩
      intro out hout
      cases hout
    | some mid =>
      obtain ⟨hnone, hsome⟩ := ih mid (r.tallied functions [reloc] stats)
      have hmarkers := map_markers_of_patched? hone
      simp only [patch_of_some hone]
      refine ⟨hnone, fun out hout => ?_⟩
      obtain ⟨hrun, hmap⟩ := hsome out hout
      refine ⟨?_, hmap.trans hmarkers⟩
      rw [hrun, tallied, counts_of_map_eq hmarkers]
      simp [tallied, List.countP_cons, Nat.add_assoc, Nat.add_comm, Nat.add_left_comm]

theorem patchAll_stop_iff {relocs : List Relocation} {functions : List Func}
    {stats : ResolveStats} :
    (r.patchAll stats functions relocs).stop = none ↔
      ∃ out, r.patchedAll? (some functions) relocs = some out := by
  obtain ⟨hnone, hsome⟩ := r.patchAll_eq relocs functions stats
  cases hall : r.patchedAll? (some functions) relocs with
  | none => simp [hnone hall]
  | some out => simp [(hsome out hall).1]

theorem patchedFunc?_comm (first second : Relocation) (a b : Addr) (f : Func) :
    (r.patchedFunc? first a f).bind (r.patchedFunc? second b)
      = (r.patchedFunc? second b f).bind (r.patchedFunc? first a) := by
  have hblock : ∀ c : CodeBlock, (r.patchedBlock? first a c).bind (r.patchedBlock? second b)
      = (r.patchedBlock? second b c).bind (r.patchedBlock? first a) := fun c =>
    exchange_of_parts (m := fun insts => ({ c with insts } : CodeBlock)) (fun _ => rfl)
      (fun _ => rfl) (editAt_comm _ _ a b c.insts)
  exact exchange_of_parts (m := fun blocks => ({ f with blocks } : Func)) (fun _ => rfl)
    (fun _ => rfl) (mapM_comm hblock f.blocks)

/-- Two relocations can be exchanged. -/
theorem patched?_comm (first second : Relocation) (functions : List Func) :
    (r.patched? first functions).bind (r.patched? second)
      = (r.patched? second functions).bind (r.patched? first) := by
  cases h₁ : (r.relocated? first : Checked ResolveError _) with
  | error e => simp [patched?_of_error h₁]
  | ok at₁ =>
    cases h₂ : (r.relocated? second : Checked ResolveError _) with
    | error e => simp [patched?_of_error h₂]
    | ok at₂ =>
      cases at₁ with
      | none => simp [patched?_of_nowhere h₁]
      | some a =>
        cases at₂ with
        | none => simp [patched?_of_nowhere h₂]
        | some b =>
          rw [patched?_of_somewhere h₁, patched?_of_somewhere h₂]
          exact mapM_comm (patchedFunc?_comm first second a b) functions

/-- Relocations can come in any order. -/
theorem patchedAll?_perm {relocs relocs' : List Relocation} (h : relocs.Perm relocs')
    (functions : List Func) :
    r.patchedAll? (some functions) relocs = r.patchedAll? (some functions) relocs' := by
  have hswap : ∀ (functions : Option (List Func)) (first second : Relocation),
      (functions.bind (r.patched? first)).bind (r.patched? second)
        = (functions.bind (r.patched? second)).bind (r.patched? first) := by
    intro functions first second
    cases functions with
    | none => simp only [Option.bind_none]
    | some functions =>
      rw [Option.bind_some, Option.bind_some]
      exact patched?_comm first second functions
  unfold patchedAll?
  exact h.foldl_eq' (fun first _ second _ functions => hswap functions first second) _

/-- A relocation finds what those before it have left. -/
theorem exists_of_patchedAll? {before after : List Relocation}
    (h : r.patchedAll? (some functions) (before ++ reloc :: after) = some out) :
    ∃ mid mid', r.patchedAll? (some functions) before = some mid ∧
      r.patched? reloc mid = some mid' ∧
      r.patchedAll? (some functions) (before ++ [reloc]) = some mid' := by
  have hlast : r.patchedAll? (some functions) (before ++ [reloc])
      = (r.patchedAll? (some functions) before).bind (r.patched? reloc) := by
    unfold patchedAll?
    rw [List.foldl_append, List.foldl_cons, List.foldl_nil]
  have hall : r.patchedAll? (some functions) (before ++ reloc :: after)
      = r.patchedAll? (r.patchedAll? (some functions) (before ++ [reloc])) after := by
    unfold patchedAll?
    rw [← List.foldl_append, List.append_assoc, List.singleton_append]
  rw [hall] at h
  cases hmid' : r.patchedAll? (some functions) (before ++ [reloc]) with
  | none =>
    rw [hmid', patchedAll?_none] at h
    cases h
  | some mid' =>
    obtain ⟨mid, hmid, hone⟩ := Option.bind_eq_some_iff.mp (hlast.symm.trans hmid')
    exact ⟨mid, mid', hmid, hone, rfl⟩

end Resolver

/-! ### One operand -/

/-- In the code of the machine instruction at `pc` in a function, one operand is replaced. -/
inductive Func.OneReplaced (pc : Addr) (old new : Operand) : Func → Func → Prop
  | mk {f : Func} {before after : List CodeBlock} {b : CodeBlock} {insts : List Inst}
      (hblocks : f.blocks = before ++ b :: after)
      (h : FlowRecovery.OneReplaced pc old new b.insts insts) :
      OneReplaced pc old new f { f with blocks := before ++ { b with insts } :: after }

namespace Resolver

variable {r : Resolver} {reloc : Relocation} {pc : Addr} {f f' : Func}

theorem patchedBlock?_of_not_mem {b : CodeBlock} (h : pc ∉ markers b.insts) :
    r.patchedBlock? reloc pc b = some b := by
  rw [patchedBlock?, editAt_of_not_mem _ h]
  rfl

theorem patchedFunc?_of_not_mem (h : pc ∉ markers f.insts) :
    r.patchedFunc? reloc pc f = some f := by
  rw [patchedFunc?, mapM_eq_some_self fun b hb => patchedBlock?_of_not_mem fun hmem =>
    h (Func.mem_markers.mpr ⟨b, hb, hmem⟩)]
  rfl

/-- In a function that has no machine instruction twice, one operand is replaced. -/
theorem oneReplaced_of_patchedFunc? (hnodup : (markers f.insts).Nodup) (hmem : pc ∈ markers f.insts)
    (h : r.patchedFunc? reloc pc f = some f') :
    ∃ new, r.classify reloc.value = some new ∧ f.OneReplaced pc (.const reloc.value) new f' := by
  obtain ⟨b, hb, hmem⟩ := Func.mem_markers.mp hmem
  obtain ⟨before, after, hblocks⟩ := List.append_of_mem hb
  -- No other block has the marker.
  have hmarkers : markers f.insts = before.flatMap (fun c => markers c.insts) ++
      (markers b.insts ++ after.flatMap fun c => markers c.insts) := by
    rw [Func.insts, hblocks, markers, List.filterMap_flatMap, List.flatMap_append,
      List.flatMap_cons]
    rfl
  rw [hmarkers, List.nodup_append, List.nodup_append] at hnodup
  obtain ⟨-, ⟨-, -, hafter⟩, hbefore⟩ := hnodup
  have hbefore : ∀ c ∈ before, pc ∉ markers c.insts := fun c hc hin =>
    hbefore pc (List.mem_flatMap.mpr ⟨c, hc, hin⟩) pc (List.mem_append_left _ hmem) rfl
  have hafter : ∀ c ∈ after, pc ∉ markers c.insts := fun c hc hin =>
    hafter pc hmem pc (List.mem_flatMap.mpr ⟨c, hc, hin⟩) rfl
  obtain ⟨blocks, hpatched, rfl⟩ := Option.map_eq_some_iff.mp h
  rw [hblocks, List.mapM_append, List.mapM_cons,
    mapM_eq_some_self fun c hc => patchedBlock?_of_not_mem (hbefore c hc),
    mapM_eq_some_self fun c hc => patchedBlock?_of_not_mem (hafter c hc)] at hpatched
  obtain ⟨c, hc, hpatched⟩ : ∃ c, r.patchedBlock? reloc pc b = some c ∧
      before ++ c :: after = blocks := by
    cases hc : r.patchedBlock? reloc pc b with
    | none => simp [hc] at hpatched
    | some c => exact ⟨c, rfl, by simpa [hc] using hpatched⟩
  obtain ⟨insts, hinsts, rfl⟩ := Option.map_eq_some_iff.mp hc
  obtain ⟨new, hnew, hone⟩ := oneReplaced_of_editAt hmem hinsts
  exact ⟨new, hnew, hpatched ▸ .mk hblocks hone⟩

end Resolver

/-- What a relocation of the instruction at `pc` makes of a function: if the function has the
instruction, one operand of it is replaced, and if not, nothing is. -/
structure Func.Patched (pc : Addr) (old new : Operand) (f f' : Func) : Prop where
  inside : pc ∈ markers f.insts → f.OneReplaced pc old new f'
  outside : pc ∉ markers f.insts → f' = f

namespace Resolver

variable {r : Resolver} {reloc : Relocation} {functions out : List Func}

/-- What a relocation does that is not refused. -/
theorem patched?_cases (hnodup : ∀ f ∈ functions, (markers f.insts).Nodup)
    (h : r.patched? reloc functions = some out) :
    (r.counts functions reloc = true ∧ ∃ pc new,
      (r.relocated? reloc : Checked ResolveError _) = .ok (some pc) ∧
      r.classify reloc.value = some new ∧ (∃ f ∈ functions, pc ∈ markers f.insts) ∧
      List.Forall₂ (Func.Patched pc (.const reloc.value) new) functions out) ∨
    (r.counts functions reloc = false ∧ out = functions) := by
  unfold patched? at h
  split at h
  · cases h
  · next hat =>
    cases h
    exact Or.inr ⟨by rw [counts, hat], rfl⟩
  · next pc hat =>
    have hcounts : r.counts functions reloc = true ↔ ∃ f ∈ functions, pc ∈ markers f.insts := by
      simp [counts, hat]
    by_cases hin : ∃ f ∈ functions, pc ∈ markers f.insts
    · have hall := forall₂_of_mapM h
      obtain ⟨f, hf, hmem⟩ := hin
      obtain ⟨f', -, hf'⟩ := exists_mem_of_forall₂ hall.flip hf
      obtain ⟨new, hnew, -⟩ := oneReplaced_of_patchedFunc? (hnodup f hf) hmem hf'
      refine Or.inl ⟨hcounts.mpr ⟨f, hf, hmem⟩, pc, new, hat, hnew, ⟨f, hf, hmem⟩, ?_⟩
      refine ((List.forall₂_and_left _ _).mpr ⟨hnodup, hall⟩).imp fun g g' hg =>
        ⟨fun hmem => ?_, fun hmem => ?_⟩
      · obtain ⟨new', hnew', hone⟩ := oneReplaced_of_patchedFunc? hg.1 hmem hg.2
        cases hnew.symm.trans hnew'
        exact hone
      · exact Option.some.inj (hg.2.symm.trans (patchedFunc?_of_not_mem hmem))
    · refine Or.inr ⟨Bool.eq_false_iff.mpr fun hc => hin (hcounts.mp hc), ?_⟩
      rw [mapM_eq_some_self fun f hf => patchedFunc?_of_not_mem fun hmem => hin ⟨f, hf, hmem⟩] at h
      exact (Option.some.inj h).symm

/-- **Relocations are a check.**  Take functions that are assembled from a store.  If all
relocations are accepted, then replacing all numbers afterwards gives what it gives without
them; each relocation is counted or skipped; one that is counted replaces one operand of its
instruction in every function that has the instruction, and one that is skipped nothing.
And whether they are accepted, what they make of the functions and what is counted is the
same in whatever order they come. -/
theorem patchAll_exact (hs : r.store.Built)
    (hf : ∀ f ∈ functions, ∃ naming entries entry, r.store.assemble naming entries entry = .ok f)
    (relocs : List Relocation) :
    let run := r.patchAll {} functions
    ((run relocs).stop = none →
      (run relocs).value.map r.replaceInFunc = functions.map r.replaceInFunc ∧
      (run relocs).state.relocations + (run relocs).state.skippedRelocations = relocs.length ∧
      ∀ before reloc after, relocs = before ++ reloc :: after →
        let prev := run before
        let next := run (before ++ [reloc])
        prev.stop = none ∧ next.stop = none ∧
        ((next.state.relocations = prev.state.relocations + 1 ∧
            next.state.skippedRelocations = prev.state.skippedRelocations ∧
            ∃ pc new, (r.relocated? reloc : Checked ResolveError _) = .ok (some pc) ∧
              r.classify reloc.value = some new ∧ (∃ f ∈ prev.value, pc ∈ markers f.insts) ∧
              List.Forall₂ (Func.Patched pc (.const reloc.value) new) prev.value next.value) ∨
          (next.state.relocations = prev.state.relocations ∧
            next.state.skippedRelocations = prev.state.skippedRelocations + 1 ∧
            next.value = prev.value))) ∧
    ∀ relocs', relocs.Perm relocs' →
      ((run relocs).stop = none ↔ (run relocs').stop = none) ∧
      ((run relocs).stop = none →
        (run relocs').value = (run relocs).value ∧ (run relocs').state = (run relocs).state) := by
  intro run
  have hrun : ∀ relocs out, r.patchedAll? (some functions) relocs = some out →
      run relocs = { state := r.tallied functions relocs {}, value := out } ∧
        out.map (fun f => markers f.insts) = functions.map fun f => markers f.insts :=
    fun relocs out => (r.patchAll_eq relocs functions {}).2 out
  refine ⟨fun hstop => ⟨map_replaceInFunc_patchAll _ _ _, ?_, ?_⟩, fun relocs' hperm => ⟨?_, ?_⟩⟩
  · obtain ⟨out, hout⟩ := patchAll_stop_iff.mp hstop
    rw [(hrun relocs out hout).1, tallied]
    simpa using (List.length_eq_countP_add_countP (r.counts functions)).symm
  · rintro before reloc after rfl prev next
    obtain ⟨out, hout⟩ := patchAll_stop_iff.mp hstop
    obtain ⟨mid, mid', hmid, hone, hmid'⟩ := exists_of_patchedAll? hout
    obtain ⟨hprev, hmarkers⟩ := hrun before mid hmid
    obtain ⟨hnext, -⟩ := hrun (before ++ [reloc]) mid' hmid'
    have hnodup : ∀ f ∈ mid, (markers f.insts).Nodup := by
      intro f hfm
      obtain ⟨g, hg, heq⟩ := List.mem_map.mp (hmarkers ▸ List.mem_map_of_mem hfm)
      obtain ⟨naming, entries, entry, hassemble⟩ := hf g hg
      exact heq ▸ hs.sound.nodup_markers hassemble
    simp only [prev, next, hprev, hnext]
    refine ⟨trivial, trivial, ?_⟩
    rcases patched?_cases hnodup hone with ⟨hcounts, hrest⟩ | ⟨hcounts, rfl⟩
    · rw [counts_of_map_eq hmarkers] at hcounts
      exact Or.inl ⟨by simp [tallied, hcounts], by simp [tallied, hcounts], hrest⟩
    · rw [counts_of_map_eq hmarkers] at hcounts
      exact Or.inr ⟨by simp [tallied, hcounts], by simp [tallied, hcounts], rfl⟩
  · rw [patchAll_stop_iff, patchAll_stop_iff, patchedAll?_perm hperm]
  · intro hstop
    obtain ⟨out, hout⟩ := patchAll_stop_iff.mp hstop
    rw [(hrun relocs out hout).1, (hrun relocs' out (patchedAll?_perm hperm functions ▸ hout)).1]
    refine ⟨rfl, ?_⟩
    simp only [tallied, hperm.countP_eq]

end Resolver

/-- A unit whose first instruction has the slot of an import twice. -/
def Lifted.twice : Lifted :=
  { address := 0x10, size := 4, kind := .ret
    body := { insts := [.setPc 0x10, .store (.const 0x40) (.const 0x40) 8, .setPc 0x12,
                .store (.const 0x40) (.const 0) 8, .branch .env, .exit], nextTemp := 0 } }

/-- The function of that unit. -/
def Func.twice : Func :=
  { name := "function_10", address := 0x10, nextTemp := 0
    blocks := [{ label := "bb_10"
                 insts := [.marker 0x10, .setPc 0x10, .store (.const 0x40) (.const 0x40) 8,
                   .marker 0x12, .setPc 0x12, .store (.const 0x40) (.const 0) 8,
                   .returnMarker .env, .ret] }] }

/-- What the slot stands for. -/
def Resolver.twice : Resolver :=
  { image := { arch := .x86_64
               sections := []
               imports := .ofList [(0x40, { name := "f", library := none })]
               relocations := [] }
    store := .ofUnits [.twice]
    functions := ∅ }

/-- A relocation of the slot at a site. -/
def Relocation.slot (site : Addr) : Relocation :=
  { site, target := 0x40, size := 8, addend := 0 }

/-- Two relocations of the same value in one instruction, and one outside of all code: the
first replaces one operand of the instruction, and their order does not matter. -/
theorem Resolver.patchAll_exact_twice :
    let run := Resolver.twice.patchAll {} [.twice]
    let relocs : List Relocation := [.slot 0x10, .slot 0x11, .slot 0x100]
    Resolver.twice.store.Built ∧ Resolver.twice.store.assemble {} ∅ 0x10 = .ok .twice ∧
    (run relocs).stop = none ∧
    (run relocs).value.map Resolver.twice.replaceInFunc = [Resolver.twice.replaceInFunc .twice] ∧
    (run relocs).state.relocations + (run relocs).state.skippedRelocations = 3 ∧
    (∃ new, List.Forall₂ (Func.Patched 0x10 (.const 0x40) new) [.twice] (run [.slot 0x10]).value) ∧
    (run [.slot 0x11, .slot 0x10, .slot 0x100]).value = (run relocs).value := by
  intro run relocs
  have hbuilt : Resolver.twice.store.Built := Store.builtOf_ofUnits fun _ _ => trivial
  have hfunc : Resolver.twice.store.assemble {} ∅ 0x10 = .ok .twice := by decide +kernel
  have hstop : (Resolver.twice.patchAll {} [.twice] [.slot 0x10, .slot 0x11, .slot 0x100]).stop
      = none := by decide +kernel
  have hcounted : (Resolver.twice.patchAll {} [.twice] [.slot 0x10]).state.relocations = 1 := by
    decide +kernel
  have hat : (Resolver.twice.relocated? (.slot 0x10) : Checked ResolveError _)
      = .ok (some 0x10) := by decide +kernel
  obtain ⟨hdone, hperm⟩ := Resolver.patchAll_exact hbuilt
    (List.forall_mem_singleton.mpr ⟨{}, ∅, 0x10, hfunc⟩) relocs
  obtain ⟨hvalue, hsum, hsteps⟩ := hdone hstop
  obtain ⟨-, -, ⟨-, -, pc, new, hpc, -, -, hone⟩ | ⟨hsame, -⟩⟩ := hsteps [] (.slot 0x10) _ rfl
  · cases hat.symm.trans hpc
    exact ⟨hbuilt, hfunc, hstop, hvalue, hsum, ⟨new, hone⟩, ((hperm _ (.swap _ _ _)).2 hstop).1⟩
  · rw [List.nil_append, hcounted] at hsame
    cases hsame

end FlowRecovery
