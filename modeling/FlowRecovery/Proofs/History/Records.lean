/-
The history of runs loses and mixes nothing.

Addresses are stored as text and counts as signed words, and the rows of all runs share
three tables.  Every row is decoded to the record that it was made of:

* `readAddress_addr`, `splitEntries_joinEntries` — addresses and lists of them;
* `RunRow.record_row` and its like — whole rows.

So what matters is which rows the tables hold.  `Holds` says it for the entries stored so
far; `Holds.store` is the step, `Holds.storeAll` the run, and `storeAll_exact` reads the
records of each run back.
-/
import FlowRecovery.History
import FlowRecovery.Proofs.Assembly.Labels
import FlowRecovery.Proofs.Lists

namespace FlowRecovery

namespace Text

theorem digitValue?_of_readOn {base n m : Nat} {l : List Char} (h : readOn base n l = some m) :
    ∀ c ∈ l, digitValue? base c ≠ none := by
  induction l generalizing n with
  | nil => exact nofun
  | cons c l ih =>
    rw [readOn] at h
    obtain ⟨d, hd, h⟩ := Option.bind_eq_some_iff.mp h
    refine List.forall_mem_cons.mpr ⟨?_, ih h⟩
    rw [hd]
    exact Option.some_ne_none d

/-- The hexadecimal digits of a number hold no other characters. -/
theorem not_mem_toDigits {c : Char} (hc : digitValue? 16 c = none) (n : Nat) :
    c ∉ Nat.toDigits 16 n :=
  fun hmem => digitValue?_of_readOn (readOn_toDigits n) c hmem hc

theorem toDigits_ne_nil (n : Nat) : Nat.toDigits 16 n ≠ [] :=
  List.ne_nil_of_length_pos Nat.length_toDigits_pos

theorem dropPlus_of_not_mem {cs : List Char} (h : '+' ∉ cs) : dropPlus cs = cs := by
  unfold dropPlus
  split
  · exact absurd List.mem_cons_self h
  · rfl

theorem readWord?_toDigits (a : Word) : readWord? 16 (Nat.toDigits 16 a.toNat) = some a := by
  have hread : readDigits? 16 (Nat.toDigits 16 a.toNat) = some a.toNat := by
    rw [readDigits?.eq_2 _ _ (toDigits_ne_nil _), readOn_toDigits]
  have hlt : a.toNat < UInt64.size := a.toNat_lt
  rw [readWord?, readUnsigned?, dropPlus_of_not_mem (not_mem_toDigits (by decide) _), hread]
  simp [Option.filter, hlt]

theorem toList_addr (a : Word) : (addr a).toList = "0x".toList ++ Nat.toDigits 16 a.toNat := by
  rw [addr, String.toList_append, toList_hex]

/-- The digits of an address do not start with another `0x`. -/
theorem dropLeading_addr (a : Word) :
    dropLeading "0x".toList (addr a).toList = Nat.toDigits 16 a.toNat := by
  have hnot : ¬ ("0x".toList ≠ [] ∧ "0x".toList.isPrefixOf (Nat.toDigits 16 a.toNat)) := by
    rintro ⟨-, hpre⟩
    have hmem : 'x' ∈ Nat.toDigits 16 a.toNat :=
      (List.isPrefixOf_iff_prefix.mp hpre).subset (by decide)
    exact not_mem_toDigits (by decide) _ hmem
  rw [toList_addr, dropLeading, dif_pos ⟨by decide, by simp⟩, List.drop_left, dropLeading,
    dif_neg hnot]

theorem comma_not_mem_addr (a : Word) : ',' ∉ (addr a).toList := by
  rw [toList_addr, List.mem_append]
  rintro (h | h)
  · revert h
    decide
  · exact not_mem_toDigits (by decide) _ h

end Text

namespace History

theorem readAddress_addr (a : Addr) : readAddress (Text.addr a) = .ok a := by
  rw [readAddress, Text.dropLeading_addr, Text.readWord?_toDigits]

theorem splitEntries_joinEntries (l : List Addr) : splitEntries (joinEntries l) = .ok l := by
  have hread : (l.map Text.addr).mapM readAddress = .ok l := by
    rw [mapM_map_ok readAddress_addr, List.map_id']
  have hkept : (l.map Text.addr).filter (· ≠ "") = l.map Text.addr := by
    refine List.filter_eq_self.mpr fun s hs => ?_
    obtain ⟨a, -, rfl⟩ := List.mem_map.mp hs
    refine decide_eq_true fun hempty => ?_
    have hlist := congrArg String.toList hempty
    rw [Text.toList_addr] at hlist
    cases hlist
  rw [splitEntries, joinEntries, String.toList_intercalate]
  cases l with
  | nil => rfl
  | cons a l =>
    rw [show ",".toList = [','] from rfl, List.splitOn_intercalate, List.map_map]
    · rw [show String.ofList ∘ String.toList = id from funext fun s => String.ofList_toList,
        List.map_id, hkept, hread]
    · simp only [List.map_map, List.mem_map]
      rintro _ ⟨b, -, rfl⟩
      exact Text.comma_not_mem_addr b
    · exact List.cons_ne_nil _ _

end History

/-! ### Rows -/

theorem RunRow.record_row (r : RunRecord) (id : Nat) : (r.row id).record = .ok r := by
  rw [RunRow.record, RunRecord.row, History.splitEntries_joinEntries]
  simp [Bind.bind, Except.bind, Pure.pure, Except.pure]

theorem BlockRow.record_row (r : BlockRecord) (run : Nat) : (r.row run).record = .ok r := by
  rw [BlockRow.record, BlockRecord.row, History.readAddress_addr]
  simp [Bind.bind, Except.bind, Pure.pure, Except.pure]

theorem FunctionRow.record_row (r : FunctionRecord) (run : Nat) : (r.row run).record = .ok r := by
  rw [FunctionRow.record, FunctionRecord.row, History.readAddress_addr, History.readAddress_addr,
    History.readAddress_addr]
  simp [Bind.bind, Except.bind, Pure.pure, Except.pure]

/-! ### What is stored -/

/-- What can be stored: a run, or what a run found. -/
inductive Entry where
  | run (record : RunRecord)
  | inventory (run : Nat) (blocks : List BlockRecord) (functions : List FunctionRecord)

namespace Entry

/-- The run that the entry stores, if it is one. -/
def record? : Entry → Option RunRecord
  | .run record => some record
  | .inventory _ _ _ => none

/-- The runs among the entries. -/
def records (entries : List Entry) : List RunRecord := entries.filterMap record?

@[simp] theorem records_cons (e : Entry) (l : List Entry) :
    records (e :: l) = e.record?.toList ++ records l := by
  cases e <;> rfl

@[simp] theorem records_append (l l' : List Entry) : records (l ++ l') = records l ++ records l' :=
  List.filterMap_append

@[simp] theorem records_nil : records [] = [] := rfl

/-- The part of an inventory that `pick` takes, if it is one of the run. -/
def itemsOf {α : Type} (pick : List BlockRecord → List FunctionRecord → List α) (id : Nat) :
    Entry → List α
  | .run _ => []
  | .inventory owner blocks functions => if owner = id then pick blocks functions else []

/-- The blocks that the entry adds to what the run found. -/
def blocksOf : Nat → Entry → List BlockRecord := itemsOf fun blocks _ => blocks

/-- The functions that the entry adds to what the run found. -/
def functionsOf : Nat → Entry → List FunctionRecord := itemsOf fun _ functions => functions

/-- The rows that store the part of an inventory that `pick` takes. -/
def rowsOf {α β : Type} (pick : List BlockRecord → List FunctionRecord → List α)
    (row : α → Nat → β) : Entry → List β
  | .run _ => []
  | .inventory owner blocks functions => (pick blocks functions).map (row · owner)

/-- Every inventory belongs to a run that is there, if there are `n` runs before the entries. -/
def Existing : Nat → List Entry → Prop
  | _, [] => True
  | n, .run _ :: rest => Existing (n + 1) rest
  | n, .inventory owner _ _ :: rest => (1 ≤ owner ∧ owner ≤ n) ∧ Existing n rest

/-- What is decoded from the rows of a run is what was stored for it. -/
theorem mapM_rowsOf {α β : Type} {pick : List BlockRecord → List FunctionRecord → List α}
    {row : α → Nat → β} {run : β → Nat} {record : β → Except HistoryError α}
    (hrun : ∀ a n, run (row a n) = n) (hrecord : ∀ a n, record (row a n) = .ok a)
    (id : Nat) (entries : List Entry) :
    ((entries.flatMap (rowsOf pick row)).filter (run · == id)).mapM record =
      .ok (entries.flatMap (itemsOf pick id)) := by
  -- Of each entry, the rows of the run are those made of its items for the run.
  have hrows : ∀ e : Entry, (rowsOf pick row e).filter (run · == id) =
      (itemsOf pick id e).map (row · id) := by
    intro e
    cases e with
    | run record => rfl
    | inventory owner blocks functions =>
      by_cases howner : owner = id
      · simp [rowsOf, itemsOf, hrun, howner]
      · simp [rowsOf, itemsOf, hrun, howner]
  rw [List.filter_flatMap, funext hrows, ← List.map_flatMap,
    mapM_map_ok fun a => hrecord a id, List.map_id']

end Entry

namespace History

open Entry

/-- Store an entry; the result lists the row number of a run. -/
def store (h : History) : Entry → Except HistoryError (History × List Nat)
  | .run record => .ok ((h.insertRun record).1, [(h.insertRun record).2])
  | .inventory owner blocks functions => (h.insertInventory owner blocks functions).map (·, [])

/-- Store entries one after the other; the result lists the row numbers of the runs. -/
def storeAll (h : History) : List Entry → Except HistoryError (History × List Nat)
  | [] => .ok (h, [])
  | e :: rest => do
    let (h, ids) ← h.store e
    let (h, more) ← h.storeAll rest
    return (h, ids ++ more)

/-- The tables hold the rows of the entries, in their order, and runs are numbered from one. -/
structure Holds (h : History) (entries : List Entry) : Prop where
  runRows : h.runRows = ((records entries).zipIdx 1).map fun p => p.1.row p.2
  lastId : h.lastId = (records entries).length
  blockRows : h.blockRows = some (entries.flatMap (rowsOf (fun blocks _ => blocks) BlockRecord.row))
  functionRows : h.functionRows =
    some (entries.flatMap (rowsOf (fun _ functions => functions) FunctionRecord.row))

namespace Holds

variable {h : History} {entries : List Entry}

theorem hasRun (hh : h.Holds entries) {id : Nat} (hpos : 1 ≤ id)
    (hle : id ≤ (records entries).length) : h.hasRun id = true := by
  rw [History.hasRun, hh.runRows, List.any_map, List.any_eq_true]
  obtain ⟨k, rfl⟩ : ∃ k, id = 1 + k := ⟨id - 1, by omega⟩
  have hk : k < (records entries).length := by omega
  refine ⟨((records entries)[k], 1 + k), ?_, ?_⟩
  · exact List.mk_mem_zipIdx_iff_le_and_getElem?_sub.mpr ⟨by omega, by simp [hk]⟩
  · show (1 + k == 1 + k) = true
    exact beq_self_eq_true _

/-- One more entry is stored, and the tables hold it behind the others. -/
theorem store (hh : h.Holds entries) {e : Entry} {rest : List Entry}
    (hex : Existing (records entries).length (e :: rest)) :
    ∃ h', h.store e = .ok (h', List.range' (h.lastId + 1) (e.record?.toList.length)) ∧
      h'.Holds (entries ++ [e]) ∧
      Existing (records (entries ++ [e])).length rest := by
  cases e with
  | run record =>
    refine ⟨(h.insertRun record).1, rfl, ⟨?_, ?_, ?_, ?_⟩, ?_⟩
    · show h.runRows ++ [record.row (h.lastId + 1)] = _
      rw [hh.runRows, hh.lastId, records_append]
      simp [record?, List.zipIdx_append, Nat.add_comm]
    · show h.lastId + 1 = _
      simp [hh.lastId, record?]
    · show h.blockRows = _
      simp [hh.blockRows, rowsOf]
    · show h.functionRows = _
      simp [hh.functionRows, rowsOf]
    · rw [records_append, List.length_append]
      exact hex
  | inventory owner blocks functions =>
    obtain ⟨⟨hpos, hle⟩, hrest⟩ := hex
    refine ⟨{ h with
      blockRows := some (entries.flatMap (rowsOf (fun blocks _ => blocks) BlockRecord.row) ++
        blocks.map (·.row owner))
      functionRows := some (entries.flatMap
        (rowsOf (fun _ functions => functions) FunctionRecord.row) ++
          functions.map (·.row owner)) }, ?_, ⟨?_, ?_, ?_, ?_⟩, ?_⟩
    · simp [History.store, insertInventory, hh.blockRows, hh.functionRows, hh.hasRun hpos hle,
        record?, Except.map]
    · simp [hh.runRows, record?]
    · simp [hh.lastId, record?]
    · simp [rowsOf]
    · simp [rowsOf]
    · simpa [record?] using hrest

/-- All entries are stored, and the tables hold them. -/
theorem storeAll {more : List Entry} (hh : h.Holds entries)
    (hex : Existing (records entries).length more) :
    ∃ h', h.storeAll more =
        .ok (h', List.range' (h.lastId + 1) (records more).length) ∧
      h'.Holds (entries ++ more) := by
  -- By induction on what is still to be stored; `Holds` speaks about what is there already.
  induction more generalizing h entries with
  | nil => exact ⟨h, rfl, by rwa [List.append_nil]⟩
  | cons e more ih =>
    obtain ⟨h₁, hstore, hh₁, hex₁⟩ := hh.store hex
    obtain ⟨h₂, hall, hh₂⟩ := ih hh₁ hex₁
    refine ⟨h₂, ?_, by rwa [List.append_assoc] at hh₂⟩
    have hnext : h₁.lastId = h.lastId + e.record?.toList.length := by
      rw [hh₁.lastId, hh.lastId, records_append, List.length_append, records_cons, records_nil,
        List.append_nil]
    have hids : List.range' (h.lastId + 1) (e.record?.toList.length) ++
        List.range' (h₁.lastId + 1) (records more).length =
        List.range' (h.lastId + 1) (records (e :: more)).length := by
      rw [hnext, show h.lastId + e.record?.toList.length + 1 =
        h.lastId + 1 + e.record?.toList.length by omega, List.range'_append_1]
      rw [records_cons, List.length_append]
    rw [History.storeAll, hstore]
    show (do let (h, more) ← h₁.storeAll more; return (h, _ ++ more)) = _
    rw [hall]
    exact congrArg (fun ids => Except.ok (h₂, ids)) hids

/-! ### Reading back -/

theorem runs (hh : h.Holds entries) (binary : Option String) :
    h.runs binary = .ok ((records entries).filter fun r => binary.all (· == r.binary)) := by
  have hrow : ∀ q : RunRecord × Nat, (q.1.row q.2).record = .ok q.1 := fun q =>
    RunRow.record_row q.1 q.2
  have hfst : ∀ (l : List RunRecord) (n : Nat) (p : RunRecord → Bool),
      ((l.zipIdx n).filter fun q => p q.1).map Prod.fst = l.filter p := by
    intro l n p
    conv_rhs => rw [← List.zipIdx_map_fst n l, List.filter_map]
    rfl
  rw [History.runs, hh.runRows, List.filter_map, mapM_map_ok hrow]
  exact congrArg Except.ok (hfst _ 1 fun r => binary.all (· == r.binary))

theorem latest? (hh : h.Holds entries) (binary : String) :
    h.latest? binary = (((records entries).zipIdx 1).filter
      (·.1.binary == binary)).getLast?.map (·.2) := by
  rw [History.latest?, hh.runRows, List.filter_map, List.getLast?_map, Option.map_map]
  rfl

theorem blocks (hh : h.Holds entries) (id : Nat) :
    h.blocks id = .ok (entries.flatMap (blocksOf id)) := by
  simp only [History.blocks, hh.blockRows]
  exact mapM_rowsOf (fun _ _ => rfl) BlockRow.record_row id entries

theorem functions (hh : h.Holds entries) (id : Nat) :
    h.functions id = .ok (entries.flatMap (functionsOf id)) := by
  simp only [History.functions, hh.functionRows]
  exact mapM_rowsOf (fun _ _ => rfl) FunctionRow.record_row id entries

end Holds

theorem holds_fresh : fresh.Holds [] := ⟨rfl, rfl, rfl, rfl⟩

/-- Entries stored in new tables are all there, each with its run: runs are numbered in the order
in which they came, and everything is read back as it was, without an error. -/
theorem storeAll_exact (entries : List Entry) (hex : Existing 0 entries) :
    ∃ h₀ h ids, ({} : History).upgrade = .ok h₀ ∧ h₀.storeAll entries = .ok (h, ids) ∧
      ids = List.range' 1 (records entries).length ∧
      h.runs none = .ok (records entries) ∧
      (∀ binary, h.runs (some binary) = .ok ((records entries).filter (·.binary == binary)) ∧
        h.latest? binary = (((records entries).zip ids).filter
          (·.1.binary == binary)).getLast?.map (·.2)) ∧
      ∀ id, h.blocks id = .ok (entries.flatMap (blocksOf id)) ∧
        h.functions id = .ok (entries.flatMap (functionsOf id)) := by
  obtain ⟨h, hstored, hh⟩ := holds_fresh.storeAll hex
  rw [List.nil_append] at hh
  refine ⟨fresh, h, _, rfl, hstored, rfl, ?_, fun binary => ⟨?_, ?_⟩, fun id => ?_⟩
  · rw [hh.runs none]
    exact congrArg Except.ok (List.filter_eq_self.mpr fun _ _ => rfl)
  · rw [hh.runs (some binary)]
    exact congrArg Except.ok (List.filter_congr fun r _ => BEq.comm)
  · rw [hh.latest?, List.zipIdx_eq_zip_range']
    rfl
  · exact ⟨hh.blocks id, hh.functions id⟩

/-- A failed run with entries and counts at the ends of their ranges. -/
def failedRun (binary : String) : RunRecord where
  binary := binary
  binaryHash := none
  arch := "x86_64"
  entryPoints := [0, 0xffffffffffffffff]
  status := .failed
  error := some "0x,"
  blocks := 0xffffffffffffffff
  functions := 0x8000000000000000
  relocations := 0
  startedAt := ""
  finishedAt := ""

/-- Two runs, with inventories that are stored in turns. -/
def interleaved : List Entry :=
  [.run (failedRun "a"), .inventory 1 [⟨16, 0xffffffffffffffff, "ret"⟩] [], .run (failedRun "b"),
    .inventory 2 [⟨0, 2, "jmp"⟩] [⟨"f", 0, 0, 0xffffffffffffffff, 1⟩],
    .inventory 1 [⟨18, 4, "jmp"⟩] []]

theorem storeAll_exact_interleaved : Existing 0 interleaved ∧
    ∃ h₀ h, ({} : History).upgrade = .ok h₀ ∧ h₀.storeAll interleaved = .ok (h, [1, 2]) ∧
      h.runs none = .ok [failedRun "a", failedRun "b"] ∧ h.latest? "b" = some 2 ∧
      h.blocks 1 = .ok [⟨16, 0xffffffffffffffff, "ret"⟩, ⟨18, 4, "jmp"⟩] := by
  have hex : Existing 0 interleaved :=
    ⟨⟨by decide, by decide⟩, ⟨by decide, by decide⟩, ⟨by decide, by decide⟩, trivial⟩
  obtain ⟨h₀, h, ids, hfresh, hstored, rfl, hall, hbinary, hfound⟩ :=
    storeAll_exact interleaved hex
  exact ⟨hex, h₀, h, hfresh, hstored, hall, (hbinary "b").2, (hfound 1).1⟩

end History

end FlowRecovery
