/-
The blocks of functions as reachability in the store.

The closure of an entry holds the addresses at the ends of paths: successor edges from one
stored block to the next, on which no other entry lies.  Inferred entries are where no
successor edge leads.  So the condition on the paths is void for them, and no function has
the entry of another one among its blocks.

* `mem_closure_iff_path` — the closure of an entry, said with paths;
* `mem_entries_iff` — what the inferred entries are;
* `closure_exact` — both together.
-/
import FlowRecovery.Proofs.Layout.Closure
import FlowRecovery.Proofs.Lists
import FlowRecovery.Proofs.Store.Halting

namespace FlowRecovery

namespace Store

variable {ε : Type} {s : Store} {entries : AddrSet} {entry a : Addr} {l : List Addr}

/-! ### Paths -/

/-- A successor edge leads from the stored block at `x` to `y`. -/
def Edge (s : Store) (x y : Addr) : Prop := ∃ b, s.get? x = some b ∧ y ∈ b.successors

/-- A way from one address to another along successor edges, with a block at every address. -/
structure Path (s : Store) (source target : Addr) (path : List Addr) : Prop where
  head : path.head? = some source
  last : path.getLast? = some target
  stored : ∀ x ∈ path, s.contains x = true
  chain : path.IsChain s.Edge

theorem within_iff {x y : Addr} :
    s.Within entries entry x y ↔ s.Edge x y ∧ s.contains y = true ∧ (y ∈ entries → y = entry) := by
  have hother : (y = entry ∨ y ∉ entries) ↔ (y ∈ entries → y = entry) := by tauto
  constructor
  · rintro ⟨b, hb, hy⟩
    obtain ⟨hsucc, hstored, hy⟩ := mem_within.mp hy
    exact ⟨⟨b, hb, hsucc⟩, hstored, hother.mp hy⟩
  · rintro ⟨⟨b, hb, hsucc⟩, hstored, hy⟩
    exact ⟨b, hb, mem_within.mpr ⟨hsucc, hstored, hother.mpr hy⟩⟩

/-- The closure of an entry is what paths lead to on which no other entry lies. -/
theorem mem_closure_iff_path :
    a ∈ s.closure entries entry ↔
      ∃ path, s.Path entry a path ∧ ∀ x ∈ path, x ∈ entries → x = entry := by
  have hwithin : s.Within entries entry =
      fun x y => s.Edge x y ∧ s.contains y = true ∧ (y ∈ entries → y = entry) :=
    funext fun x => funext fun y => propext within_iff
  rw [mem_closure_iff, hwithin]
  constructor
  · rintro ⟨hentry, hreach⟩
    obtain ⟨rest, hchain, hlast⟩ := List.exists_isChain_cons_of_relationReflTransGen hreach
    obtain ⟨hchain, hrest⟩ := isChain_and_iff.mp hchain
    refine ⟨entry :: rest, ⟨rfl, ?_, ?_, hchain⟩, ?_⟩
    · rw [← hlast]
      exact List.getLast?_eq_getLast_of_ne_nil _
    · exact List.forall_mem_cons.mpr ⟨hentry, fun x hx => (hrest x hx).1⟩
    · exact List.forall_mem_cons.mpr ⟨fun _ => rfl, fun x hx => (hrest x hx).2⟩
  · rintro ⟨path, hpath, hfree⟩
    obtain ⟨rest, rfl⟩ := List.head?_eq_some_iff.mp hpath.head
    obtain ⟨hentry, hstored⟩ := List.forall_mem_cons.mp hpath.stored
    obtain ⟨-, hfree⟩ := List.forall_mem_cons.mp hfree
    refine ⟨hentry, ?_⟩
    refine List.relationReflTransGen_of_exists_isChain_cons rest
      (isChain_and_iff.mpr ⟨hpath.chain, fun x hx => ⟨hstored x hx, hfree x hx⟩⟩) ?_
    exact Option.some.inj ((List.getLast?_eq_getLast_of_ne_nil _).symm.trans hpath.last)

/-! ### Inferred entries -/

theorem hasPredecessor_eq_true : s.hasPredecessor a = true ↔ ∃ x, s.Edge x a := by
  unfold hasPredecessor toList Edge
  rw [List.any_eq_true]
  constructor
  · rintro ⟨b, hb, ha⟩
    obtain ⟨x, hx⟩ := AddrMap.mem_values.mp hb
    exact ⟨x, b, hx, AddrSet.contains_iff.mp ha⟩
  · rintro ⟨x, b, hx, ha⟩
    exact ⟨b, AddrMap.mem_values.mpr ⟨x, hx⟩, AddrSet.contains_iff.mpr ha⟩

theorem isEntry_eq_true :
    (s.isEntry a : Checked ε Bool) = .ok true ↔
      (∀ x, ¬ s.Edge x a) ∧
        ∃ b, s.get? a = some b ∧ (b.isImportStub : Checked ε Bool) = .ok false := by
  unfold isEntry
  split
  · next hpred =>
    obtain ⟨x, hx⟩ := hasPredecessor_eq_true.mp hpred
    exact ⟨nofun, fun h => absurd hx (h.1 x)⟩
  · next hpred =>
    have hno : ∀ x, ¬ s.Edge x a := fun x hx => hpred (hasPredecessor_eq_true.mpr ⟨x, hx⟩)
    cases s.get? a with
    | none => simp
    | some b =>
      cases hstub : (b.isImportStub : Checked ε Bool) with
      | error e => simp [Except.map, hstub]
      | ok stub => simp [Except.map, hstub, hno]

theorem mem_filterAuxM {f : Addr → Checked ε Bool} {kept r : List Addr}
    (h : l.filterAuxM f kept = .ok r) : a ∈ r ↔ (a ∈ l ∧ f a = .ok true) ∨ a ∈ kept := by
  induction l generalizing kept with
  | nil =>
    cases h
    simp
  | cons c l ih =>
    obtain ⟨keep, hkeep, h⟩ := Checked.bind_eq_ok.mp h
    have hhead : a = c → f a = .ok keep := fun ha => ha ▸ hkeep
    rw [ih h]
    cases keep with
    | true =>
      simp only [cond_true, List.mem_cons]
      tauto
    | false =>
      have hnot : a = c → f a ≠ .ok true := fun ha => by rw [hhead ha]; nofun
      simp only [cond_false, List.mem_cons]
      tauto

/-- The inferred entries are the stored blocks that no stored block leads to, but for stubs of
imports. -/
theorem mem_entries_iff (h : (s.entries : Checked ε (List Addr)) = .ok l) :
    a ∈ l ↔ (∀ x, ¬ s.Edge x a) ∧
      ∃ b, s.get? a = some b ∧ (b.isImportStub : Checked ε Bool) = .ok false := by
  obtain ⟨r, hr, h⟩ := Checked.bind_eq_ok.mp h
  cases h
  rw [List.mem_reverse, mem_filterAuxM hr, isEntry_eq_true]
  have hstored : a ∈ s.addresses ↔ ∃ b, s.get? a = some b := AddrMap.mem_keys.trans contains_iff
  rw [hstored]
  simp only [List.not_mem_nil, or_false]
  constructor
  · exact fun h => h.2
  · rintro ⟨hno, b, hb, hstub⟩
    exact ⟨⟨b, hb⟩, hno, b, hb, hstub⟩

/-- Behind its start, a path only comes to where a successor edge leads. -/
theorem Path.exists_edge {rest : List Addr} (h : s.Path entry a (entry :: rest)) :
    ∀ x ∈ rest, ∃ y, s.Edge y x :=
  (isChain_and_iff.mp (h.chain.imp fun x _ hxy => ⟨hxy, x, hxy⟩)).2

/-- No path leads to an inferred entry but the one that starts there. -/
theorem Path.eq_of_mem_entries {path : List Addr} (h : s.Path entry a path)
    (hl : (s.entries : Checked ε (List Addr)) = .ok l) : ∀ x ∈ path, x ∈ l → x = entry := by
  obtain ⟨rest, rfl⟩ := List.head?_eq_some_iff.mp h.head
  intro x hx hxl
  rcases List.mem_cons.mp hx with rfl | hx
  · rfl
  · obtain ⟨y, hy⟩ := h.exists_edge x hx
    exact absurd hy (((mem_entries_iff hl).mp hxl).1 y)

/-- **The blocks of a function are those that control reaches.**  Whatever the entries are, the
closure of one is the set of stored addresses that paths lead to on which no other entry
lies; it is empty if no block starts there.  The entries of a store of classified blocks can
be inferred.  No successor edge leads to an inferred entry, so for these the closure is
everything that paths lead to, and no other inferred entry is among it. -/
theorem closure_exact (s : Store) :
    (∀ entries entry a, a ∈ s.closure entries entry ↔
      ∃ path, s.Path entry a path ∧ ∀ x ∈ path, x ∈ entries → x = entry) ∧
    (∀ entries entry, s.contains entry = false → s.closure entries entry = ∅) ∧
    (s.Built → ∃ l, (s.entries : Checked ε (List Addr)) = .ok l) ∧
    ∀ l, (s.entries : Checked ε (List Addr)) = .ok l →
      (∀ x b, s.get? x = some b → ∀ y ∈ b.successors, y ∉ l) ∧
      (∀ entry a, a ∈ s.closure (.ofList l) entry ↔ ∃ path, s.Path entry a path) ∧
      ∀ entry ∈ l, ∀ other ∈ l, other ∈ s.closure (.ofList l) entry → other = entry := by
  refine ⟨fun _ _ _ => mem_closure_iff_path, fun entries entry hnot => ?_, fun hs => ?_,
    fun l hl => ⟨fun x b hb y hy hmem => ?_, fun entry a => ?_, fun entry _ other hother h => ?_⟩⟩
  · refine AddrSet.ext fun a => iff_of_false (fun ha => ?_) (AddrSet.not_mem_empty a)
    obtain ⟨path, hpath, -⟩ := mem_closure_iff_path.mp ha
    have hentry := hpath.stored entry (List.mem_of_head? hpath.head)
    rw [hnot] at hentry
    cases hentry
  · obtain ⟨l, hl, -⟩ := hs.sound.succeeds_entries (ε := ε)
    exact ⟨l, hl⟩
  · exact ((mem_entries_iff hl).mp hmem).1 x ⟨b, hb, hy⟩
  · rw [mem_closure_iff_path]
    refine exists_congr fun path => and_iff_left_of_imp fun hpath x hx hmem => ?_
    exact hpath.eq_of_mem_entries hl x hx (AddrSet.mem_ofList.mp hmem)
  · obtain ⟨path, hpath, -⟩ := mem_closure_iff_path.mp h
    exact hpath.eq_of_mem_entries hl other (List.mem_of_getLast? hpath.last) hother

end Store

/-- Units of two functions that end in the same block, one of them after a loop. -/
def Lifted.sharedEnd : List Lifted :=
  [{ address := 0x10, size := 2, kind := .fallthrough
     body := { insts := [.setPc 0x10, .branch (.pc 0x12), .exit], nextTemp := 0 } },
   { address := 0x12, size := 2, kind := .condJump
     body := { insts := [.setPc 0x12, .readReg 0 "zf", .select 1 (.temp 0) (.pc 0x12) (.pc 0x14),
                 .branch (.temp 1), .exit]
               nextTemp := 2 } },
   { address := 0x14, size := 1, kind := .ret
     body := { insts := [.setPc 0x14, .branch .env, .exit], nextTemp := 0 } },
   { address := 0x20, size := 2, kind := .jump
     body := { insts := [.setPc 0x20, .branch (.pc 0x14), .exit], nextTemp := 0 } }]

/-- The two functions share their last block.  If a function starts there as well, both stop
in front of it. -/
theorem Store.closure_exact_sharedEnd :
    ((Store.ofUnits Lifted.sharedEnd).entries : Checked AssembleError _) = .ok [0x10, 0x20] ∧
    ((Store.ofUnits Lifted.sharedEnd).closure (.ofList [0x10, 0x20]) 0x10).toList
      = [0x10, 0x12, 0x14] ∧
    ((Store.ofUnits Lifted.sharedEnd).closure (.ofList [0x10, 0x14, 0x20]) 0x10).toList
      = [0x10, 0x12] ∧
    (∃ path, (Store.ofUnits Lifted.sharedEnd).Path 0x10 0x14 path) ∧
    ∀ path, (Store.ofUnits Lifted.sharedEnd).Path 0x10 0x14 path →
      ∃ x ∈ path, x ∈ AddrSet.ofList [0x10, 0x14, 0x20] ∧ x ≠ 0x10 := by
  have hentries : ((Store.ofUnits Lifted.sharedEnd).entries : Checked AssembleError _)
      = .ok [0x10, 0x20] := by decide +kernel
  have hinferred : ((Store.ofUnits Lifted.sharedEnd).closure (.ofList [0x10, 0x20]) 0x10).toList
      = [0x10, 0x12, 0x14] := by decide +kernel
  have hstops : ((Store.ofUnits Lifted.sharedEnd).closure
      (.ofList [0x10, 0x14, 0x20]) 0x10).toList = [0x10, 0x12] := by decide +kernel
  obtain ⟨hclosure, -, -, hall⟩ :=
    Store.closure_exact (ε := AssembleError) (.ofUnits Lifted.sharedEnd)
  obtain ⟨-, hreach, -⟩ := hall _ hentries
  refine ⟨hentries, hinferred, hstops, (hreach 0x10 0x14).mp ?_, fun path hpath => ?_⟩
  · rw [AddrSet.mem_def, hinferred]
    decide
  · by_contra hno
    have hfree : ∀ x ∈ path, x ∈ AddrSet.ofList [0x10, 0x14, 0x20] → x = 0x10 :=
      fun x hx hmem => by_contra fun hne => hno ⟨x, hx, hmem, hne⟩
    have hmem := (hclosure (.ofList [0x10, 0x14, 0x20]) 0x10 0x14).mpr ⟨path, hpath, hfree⟩
    rw [AddrSet.mem_def, hstops] at hmem
    exact absurd hmem (by decide)

end FlowRecovery
