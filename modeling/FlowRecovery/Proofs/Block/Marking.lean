/-
Classification keeps the code of a unit.

Markers are put in front of the first `setPc` of every program counter, and the raw branch of
a call or return unit gives way to the marker of its transfer.  Nothing else happens to the
code: without the markers, and with the branch back in its place, it is what was lifted.

The check of the block does the rest.  It only accepts markers that increase from the
address of the unit, and no raw branch in front of the end.

* `unmarked_mark`, `MarksFirst.mark` — marking adds markers only, and where it puts them;
* `Classified.exists_transfer` — the one instruction that is replaced;
* `classify_faithful` — the block of a unit against the unit.
-/
import FlowRecovery.Proofs.Body.Transfer

namespace FlowRecovery

/-- The code without its markers. -/
def unmarked (insts : List Inst) : List Inst := insts.filter (·.marker?.isNone)

namespace Lifted

/-- Marking adds markers only. -/
theorem unmarked_mark {insts : List Inst} (h : markers insts = []) (seen : AddrSet) :
    unmarked (mark seen insts) = insts := by
  induction insts generalizing seen with
  | nil => rfl
  | cons i insts ih =>
    cases i with
    | setPc pc =>
      rw [mark]
      split
      · exact congrArg (_ :: ·) (ih h seen)
      · exact congrArg (_ :: ·) (ih h (seen.insert pc))
    | marker pc => cases h
    | _ => exact congrArg (_ :: ·) (ih h seen)

/-- Marked code never starts with a `setPc` to a program counter that has not been seen. -/
theorem head?_mark {insts : List Inst} {seen : AddrSet} {pc : Addr} (hpc : pc ∉ seen) :
    (mark seen insts)[0]? ≠ some (.setPc pc) := by
  intro heq
  cases insts with
  | nil => cases heq
  | cons i insts =>
    cases i with
    | setPc q =>
      rw [mark] at heq
      split at heq
      · next hq =>
        cases heq
        exact hpc hq
      · cases heq
    | _ => cases heq

end Lifted

/-! ### Where the markers stand -/

/-- Markers stand right before the first `setPc` of every program counter that has not been
seen before, and nowhere else. -/
def MarksFirst (seen : AddrSet) (insts : List Inst) : Prop :=
  ∀ n pc, insts[n]? = some (.marker pc) ↔
    pc ∉ seen ∧ insts[n + 1]? = some (.setPc pc) ∧ ∀ m ≤ n, insts[m]? ≠ some (.setPc pc)

namespace MarksFirst

variable {seen : AddrSet} {insts : List Inst}

/-- An instruction can be put in front that neither is a marker nor moves to a program counter
that has not been seen. -/
theorem cons {i : Inst} (h : MarksFirst seen insts) (hi : i.marker? = none)
    (hseen : ∀ pc ∈ i.position?, pc ∈ seen)
    (hhead : ∀ pc ∉ seen, insts[0]? ≠ some (.setPc pc)) : MarksFirst seen (i :: insts) := by
  intro n pc
  have hpc : pc ∉ seen → i ≠ .setPc pc := by
    rintro hnot rfl
    exact hnot (hseen pc rfl)
  cases n with
  | zero =>
    refine iff_of_false ?_ fun hright => hhead pc hright.1 hright.2.1
    intro heq
    cases heq
    cases hi
  | succ n =>
    rw [List.getElem?_cons_succ, List.getElem?_cons_succ, h n pc]
    refine and_congr_right fun hnot => and_congr_right fun _ => ?_
    constructor
    · intro hbefore m hm
      cases m with
      | zero => exact fun heq => hpc hnot (Option.some.inj heq)
      | succ m => exact hbefore m (by omega)
    · exact fun hbefore m hm => hbefore (m + 1) (by omega)

/-- So can the first move to a program counter, with its marker. -/
theorem cons_marker {q : Addr} (h : MarksFirst (seen.insert q) insts) (hq : q ∉ seen)
    (hhead : ∀ pc ∉ seen.insert q, insts[0]? ≠ some (.setPc pc)) :
    MarksFirst seen (.marker q :: .setPc q :: insts) := by
  intro n pc
  have hnot : pc ∉ seen.insert q ↔ pc ≠ q ∧ pc ∉ seen := by
    rw [AddrSet.mem_insert, not_or]
  match n with
  | 0 =>
    constructor
    · intro heq
      cases heq
      refine ⟨hq, rfl, fun m hm => ?_⟩
      obtain rfl : m = 0 := by omega
      nofun
    · rintro ⟨-, heq, -⟩
      cases heq
      rfl
  | 1 =>
    refine iff_of_false nofun ?_
    rintro ⟨hseen, hnext, hbefore⟩
    have hne : pc ≠ q := by
      rintro rfl
      exact hbefore 1 (by omega) rfl
    exact hhead pc (hnot.mpr ⟨hne, hseen⟩) hnext
  | n + 2 =>
    show insts[n]? = some (.marker pc) ↔ pc ∉ seen ∧ insts[n + 1]? = some (.setPc pc) ∧ _
    rw [h n pc, hnot]
    constructor
    · rintro ⟨⟨hne, hseen⟩, hnext, hbefore⟩
      refine ⟨hseen, hnext, fun m hm => ?_⟩
      match m with
      | 0 => nofun
      | 1 =>
        intro heq
        cases heq
        exact hne rfl
      | m + 2 => exact hbefore m (by omega)
    · rintro ⟨hseen, hnext, hbefore⟩
      refine ⟨⟨?_, hseen⟩, hnext, fun m hm => hbefore (m + 2) (by omega)⟩
      rintro rfl
      exact hbefore 1 (by omega) rfl

/-- Marking puts the markers there. -/
theorem mark (h : markers insts = []) (seen : AddrSet) :
    MarksFirst seen (Lifted.mark seen insts) := by
  induction insts generalizing seen with
  | nil =>
    intro n pc
    refine iff_of_false ?_ ?_
    · intro heq
      cases heq
    · rintro ⟨-, heq, -⟩
      cases heq
  | cons i insts ih =>
    have hhead : ∀ seen, ∀ pc ∉ seen, (Lifted.mark seen insts)[0]? ≠ some (.setPc pc) :=
      fun _ _ hpc => Lifted.head?_mark hpc
    cases i with
    | setPc pc =>
      rw [Lifted.mark]
      split
      · next hpc =>
        refine (ih h seen).cons rfl (fun q hq => ?_) (hhead seen)
        cases hq
        exact hpc
      · next hpc => exact (ih h _).cons_marker hpc (hhead _)
    | marker pc => cases h
    | _ =>
      refine (ih h seen).cons rfl ?_ (hhead seen)
      intro q hq
      cases hq

/-- Putting one instruction for another that does more than say where it is moves no marker. -/
theorem replace {pre post : List Inst} {i j : Inst} (h : MarksFirst seen (pre ++ i :: post))
    (hi : Block.isPosition i = false) (hj : Block.isPosition j = false) :
    MarksFirst seen (pre ++ j :: post) := by
  have hsame : ∀ k, Block.isPosition k = true → ∀ n : Nat,
      (pre ++ j :: post)[n]? = some k ↔ (pre ++ i :: post)[n]? = some k := by
    intro k hk n
    rcases Nat.lt_trichotomy n pre.length with hlt | rfl | hgt
    · rw [List.getElem?_append_left hlt, List.getElem?_append_left hlt]
    · have hne : j ≠ k ∧ i ≠ k := by
        constructor <;> rintro rfl
        · rw [hj] at hk
          cases hk
        · rw [hi] at hk
          cases hk
      simp [hne]
    · obtain ⟨m, rfl⟩ : ∃ m, n = pre.length + (m + 1) := ⟨n - pre.length - 1, by omega⟩
      rw [List.getElem?_append_right (by omega), List.getElem?_append_right (by omega)]
      simp
  intro n pc
  rw [hsame _ rfl, hsame _ rfl, h n pc]
  refine and_congr_right fun _ => and_congr_right fun _ => forall_congr' fun m => ?_
  exact imp_congr_right fun _ => not_congr (hsame _ rfl m).symm

end MarksFirst

/-- The program counters with markers are those that the code moves to and that have not been
seen. -/
theorem Lifted.mem_markers_mark {insts : List Inst} {seen : AddrSet} {pc : Addr}
    (h : markers insts = []) :
    pc ∈ markers (mark seen insts) ↔ .setPc pc ∈ insts ∧ pc ∉ seen := by
  induction insts generalizing seen with
  | nil => simp [mark, markers]
  | cons i insts ih =>
    cases i with
    | setPc q =>
      have hmem : Inst.setPc pc ∈ Inst.setPc q :: insts ↔ pc = q ∨ .setPc pc ∈ insts := by
        rw [List.mem_cons, Inst.setPc.injEq]
      rw [mark, hmem]
      split
      · next hq =>
        show pc ∈ markers (mark seen insts) ↔ _
        rw [ih h]
        constructor
        · exact fun hpc => ⟨Or.inr hpc.1, hpc.2⟩
        · rintro ⟨rfl | hpc, hnot⟩
          · exact absurd hq hnot
          · exact ⟨hpc, hnot⟩
      · next hq =>
        show pc ∈ q :: markers (mark (seen.insert q) insts) ↔ _
        rw [List.mem_cons, ih h, AddrSet.mem_insert, not_or]
        constructor
        · rintro (rfl | ⟨hpc, -, hnot⟩)
          · exact ⟨Or.inl rfl, hq⟩
          · exact ⟨Or.inr hpc, hnot⟩
        · rintro ⟨hpc, hnot⟩
          by_cases heq : pc = q
          · exact Or.inl heq
          · exact Or.inr ⟨hpc.resolve_left heq, heq, hnot⟩
    | marker q => cases h
    | _ =>
      show pc ∈ markers (mark seen insts) ↔ _
      rw [ih h]
      simp

/-! ### The instruction that is replaced -/

theorem unmarked_append (l m : List Inst) : unmarked (l ++ m) = unmarked l ++ unmarked m :=
  List.filter_append l m

theorem unmarked_cons {i : Inst} (h : i.marker? = none) (l : List Inst) :
    unmarked (i :: l) = i :: unmarked l := by
  rw [unmarked, List.filter_cons_of_pos (by rw [h]; rfl)]
  rfl

theorem mem_unmarked {i : Inst} {insts : List Inst} :
    i ∈ unmarked insts ↔ i ∈ insts ∧ i.marker? = none := by
  rw [unmarked, List.mem_filter, Option.isNone_iff_eq_none]

/-- There is no raw branch in front of what stands in its place. -/
theorem Body.Lawful.branch?_eq_none {b : Body} {address : Addr} {size : Word}
    (h : b.Lawful address size) {pre post : List Inst} {j : Inst}
    (hinsts : b.insts = pre ++ j :: post) (hexit : j ≠ .exit)
    (hrest : ∀ i ∈ j :: post, i.branch? = none) : ∀ i ∈ pre, i.branch? = none := by
  obtain ⟨code, target, hend, hinner⟩ := h.ending
  cases target with
  | none =>
    have hnone : ∀ i ∈ b.insts, i.branch? = none := by
      rw [← List.filterMap_eq_nil_iff, hend, List.filterMap_append,
        filterMap_branch?_of_isInner hinner]
      rfl
    rw [hinsts] at hnone
    exact fun i hi => hnone i (List.mem_append_left _ hi)
  | some target =>
    -- The raw branch stands right before the exit, with nothing but `j` or `post` to be it.
    exfalso
    rw [hinsts] at hend
    rcases List.append_eq_append_iff.mp hend with ⟨c, -, hc⟩ | ⟨c, -, hc⟩
    · have hmem : Inst.branch target ∈ j :: post := by
        rw [hc]
        exact List.mem_append_right c (List.mem_cons_self ..)
      exact nomatch hrest _ hmem
    · match c, hc with
      | [], hc =>
        cases hc
        exact nomatch hrest _ (List.mem_cons_self ..)
      | [_], hc =>
        cases hc
        exact hexit rfl
      | _ :: _ :: _, hc => simp [rawEnd] at hc

namespace Block

/-- The block of a unit against the unit. -/
structure Faithful (u : Lifted) (b : Block) : Prop where
  /-- A call to what stands behind it falls through, and all other units keep their kind. -/
  kind : b.kind = if u.kind = .call ∧ u.body.staticTargets = [u.address + u.size]
    then .fallthrough else u.kind
  /-- Units that neither call nor return only get markers. -/
  kept : b.kind.isCall = false → b.kind ≠ .ret → unmarked b.body.insts = u.body.insts
  /-- In a call the one raw branch has become the marker of the call. -/
  call : b.kind.isCall = true → ∃ pre target post,
    unmarked b.body.insts =
      pre ++ .callMarker target (b.kind = .call && target.pc?.isSome) .env :: post ∧
    u.body.insts = pre ++ .branch target :: post ∧
    u.body.insts.filterMap Inst.branch? = [target]
  /-- In a return the one raw branch has become the marker of the return. -/
  ret : b.kind = .ret → ∃ pre target post,
    unmarked b.body.insts = pre ++ .returnMarker target :: post ∧
    u.body.insts = pre ++ .branch target :: post ∧
    u.body.insts.filterMap Inst.branch? = [target]
  /-- Markers stand right before the first `setPc` of each program counter. -/
  marks : ∀ n pc, b.body.insts[n]? = some (.marker pc) ↔
    b.body.insts[n + 1]? = some (.setPc pc) ∧ ∀ m ≤ n, b.body.insts[m]? ≠ some (.setPc pc)
  /-- They increase strictly, -/
  increasing : (markers b.body.insts).Pairwise (· < ·)
  /-- and the first is that of the address of the unit. -/
  start : (markers b.body.insts).head? = some u.address
  /-- The block can be split where the code moves the program counter. -/
  boundaries : ∀ pc, b.body.boundaries.contains pc = true ↔ .setPc pc ∈ u.body.insts
  /-- The temporaries keep their numbers. -/
  nextTemp : b.body.nextTemp = u.body.nextTemp
  /-- A call to what stands behind it calls nothing and goes on there, unless it halts. -/
  onward : u.kind = .call → u.body.staticTargets = [u.address + u.size] →
    b.kind = .fallthrough ∧ unmarked b.body.insts = u.body.insts ∧ b.callTargets = ∅ ∧
    b.successors = if .halt ∈ u.body.insts then ∅ else .singleton (u.address + u.size)

namespace Classified

variable {u : Lifted} {b : Block}

theorem exists_replaced (h : Classified u b) (hkind : b.kind.isCall = true ∨ b.kind = .ret) :
    ∃ pre target post, u.marked.insts = pre ++ .branch target :: post ∧
      b.body.insts = pre ++ Lifted.transferMarker b.kind target :: post ∧
      ∀ i ∈ post, i.branch? = none := by
  rcases Lifted.markTransfer_cases h.body with ⟨hcall, hret, -⟩ | ⟨-, hreplaced⟩
  · rw [hcall] at hkind
    exact absurd (hkind.resolve_left nofun) hret
  · obtain ⟨pre, target, post, hmarked, hbody, hpost⟩ := hreplaced
    exact ⟨pre, target, post, hmarked, congrArg Body.insts hbody, hpost⟩

/-- The raw branch of a call or return unit gives way to the marker of the transfer, and there
is no other. -/
theorem exists_transfer (h : Classified u b) (hraw : markers u.body.insts = [])
    (hkind : b.kind.isCall = true ∨ b.kind = .ret) : ∃ pre target post,
      unmarked b.body.insts = pre ++ Lifted.transferMarker b.kind target :: post ∧
      u.body.insts = pre ++ .branch target :: post ∧
      u.body.insts.filterMap Inst.branch? = [target] := by
  obtain ⟨pre, target, post, hmarked, hbody, hpost⟩ := h.exists_replaced hkind
  have hu : u.body.insts = unmarked pre ++ .branch target :: unmarked post := by
    rw [← unmarked_cons rfl, ← unmarked_append, ← hmarked]
    exact (Lifted.unmarked_mark hraw ∅).symm
  have hb : unmarked b.body.insts =
      unmarked pre ++ Lifted.transferMarker b.kind target :: unmarked post := by
    rw [hbody, unmarked_append, unmarked_cons (Lifted.marker?_transferMarker _ _)]
  have htransfer : Lifted.transferMarker b.kind target ≠ .exit ∧
      (Lifted.transferMarker b.kind target).branch? = none := by
    unfold Lifted.transferMarker
    split <;> exact ⟨nofun, rfl⟩
  have hpre := (Body.check_iff_lawful.mp h.checked).branch?_eq_none hbody htransfer.1
    (List.forall_mem_cons.mpr ⟨htransfer.2, hpost⟩)
  refine ⟨_, target, _, hb, hu, ?_⟩
  have hnone : ∀ l : List Inst, (∀ i ∈ l, i.branch? = none) →
      (unmarked l).filterMap Inst.branch? = [] :=
    fun l hl => List.filterMap_eq_nil_iff.mpr fun i hi => hl i (mem_unmarked.mp hi).1
  rw [hu, List.filterMap_append, List.filterMap_cons, hnone pre hpre, hnone post hpost]
  rfl

/-- The markers of a block stand where marking puts them. -/
theorem marksFirst (h : Classified u b) (hraw : markers u.body.insts = []) :
    MarksFirst ∅ b.body.insts := by
  have hmark : MarksFirst ∅ u.marked.insts := .mark hraw ∅
  rcases Lifted.markTransfer_cases h.body with
    ⟨-, -, hbody⟩ | ⟨-, pre, target, post, hmarked, hbody, -⟩
  · rw [hbody]
    exact hmark
  · rw [hmarked] at hmark
    rw [hbody]
    refine hmark.replace rfl ?_
    unfold Lifted.transferMarker
    split <;> rfl

theorem nextTemp_eq (h : Classified u b) : b.body.nextTemp = u.body.nextTemp := by
  rcases Lifted.markTransfer_cases h.body with ⟨-, -, hbody⟩ | ⟨-, _, _, _, -, hbody, -⟩ <;>
    rw [hbody] <;> rfl

/-- A call to what stands behind it is made into a unit that falls through. -/
theorem onward (h : Classified u b) (hcall : u.kind = .call)
    (hnext : u.body.staticTargets = [u.address + u.size]) :
    b.kind = .fallthrough ∧ b.callTargets = ∅ ∧
      b.successors = if .halt ∈ u.body.insts then ∅ else .singleton (u.address + u.size) := by
  have htargets : u.marked.staticTargets = [u.address + u.size] :=
    u.sameEnd_marked.staticTargets.trans hnext
  have hkind : b.kind = .fallthrough := by
    rw [h.kind, if_pos ⟨hcall, htargets⟩]
  have hhalts : b.halts = true ↔ .halt ∈ u.body.insts := by
    rw [h.halts, Body.hasHalt, List.contains_iff_mem,
      h.body_eq (by rw [hkind]; rfl) (by rw [hkind]; nofun)]
    exact Lifted.mem_mark rfl
  refine ⟨hkind, ?_, ?_⟩
  · rw [h.callTargets, hkind]
    rfl
  · rw [h.successors, hkind, htargets]
    by_cases hhalt : .halt ∈ u.body.insts
    · rw [if_pos (hhalts.mpr hhalt), if_pos hhalt]
    · rw [if_neg (fun h => hhalt (hhalts.mp h)), if_neg hhalt]
      exact AddrSet.ext fun x => by
        simp [Lifted.successors, Lifted.followsBranch, BlockKind.fallsThrough]

end Classified

/-- **Classification loses and reorders nothing.**  If a unit without markers is classified,
then its block is faithful to it. -/
theorem classify_faithful {u : Lifted} {b : Block} (h : classify u = .ok b)
    (hraw : ∀ pc, .marker pc ∉ u.body.insts) : Faithful u b := by
  have hc := classified_of_classify h
  have hlaw := Body.check_iff_lawful.mp hc.checked
  have hnone : markers u.body.insts = [] := by
    refine List.filterMap_eq_nil_iff.mpr fun i hi => ?_
    cases i with
    | marker pc => exact absurd hi (hraw pc)
    | _ => rfl
  have htargets : u.marked.staticTargets = u.body.staticTargets := u.sameEnd_marked.staticTargets
  have hkept : b.kind.isCall = false → b.kind ≠ .ret →
      unmarked b.body.insts = u.body.insts := by
    intro hcall hret
    rw [hc.body_eq hcall hret]
    exact Lifted.unmarked_mark hnone ∅
  refine
    { kind := htargets ▸ hc.kind
      kept := hkept
      call := ?_
      ret := ?_
      marks := ?_
      increasing := hlaw.increasing
      start := ?_
      boundaries := ?_
      nextTemp := hc.nextTemp_eq
      onward := ?_ }
  · intro hcall
    obtain ⟨pre, target, post, hb, hu, hone⟩ := hc.exists_transfer hnone (.inl hcall)
    refine ⟨pre, target, post, ?_, hu, hone⟩
    rw [hb, Lifted.transferMarker, if_neg]
    intro hret
    rw [hret] at hcall
    cases hcall
  · intro hret
    obtain ⟨pre, target, post, hb, hu, hone⟩ := hc.exists_transfer hnone (.inr hret)
    refine ⟨pre, target, post, ?_, hu, hone⟩
    rw [hb, Lifted.transferMarker, if_pos hret]
  · intro n pc
    rw [hc.marksFirst hnone n pc]
    exact and_iff_right (AddrSet.not_mem_empty pc)
  · obtain ⟨rest, hrest⟩ := List.head?_eq_some_iff.mp hlaw.start
    rw [hrest, ← hc.address]
    rfl
  · intro pc
    rw [← AddrMap.mem_keys, Body.keys_boundaries hc.checked, hc.markers_eq]
    exact (Lifted.mem_markers_mark hnone).trans (and_iff_left (AddrSet.not_mem_empty pc))
  · intro hcall hnext
    obtain ⟨hkind, hcalls, hsuccessors⟩ := hc.onward hcall hnext
    exact ⟨hkind, hkept (hkind ▸ rfl) (hkind ▸ nofun), hcalls, hsuccessors⟩

end Block

/-- A call whose first machine instruction moves the program counter twice. -/
def Lifted.slowCall : Lifted :=
  { address := 0x10, size := 5, kind := .call
    body := { insts := [.setPc 0x10, .readReg 0 "rax", .setPc 0x10, .setPc 0x12,
                .branch (.pc 0x20), .exit]
              nextTemp := 1 } }

/-- A call to what stands behind it. -/
def Lifted.callNext : Lifted :=
  { address := 0x20, size := 2, kind := .call
    body := { insts := [.setPc 0x20, .readReg 0 "rsp", .branch (.pc 0x22), .exit]
              nextTemp := 1 } }

/-- Both are classified: the one has two markers and the marker of its call, and the other
falls through. -/
theorem Block.classify_faithful_calls :
    ∃ slow next, classify Lifted.slowCall = .ok slow ∧ classify Lifted.callNext = .ok next ∧
      slow.body.insts = [.marker 0x10, .setPc 0x10, .readReg 0 "rax", .setPc 0x10,
        .marker 0x12, .setPc 0x12, .callMarker (.pc 0x20) true .env, .exit] ∧
      slow.body.boundaries.contains 0x12 = true ∧
      next.kind = .fallthrough ∧ next.callTargets = ∅ ∧ next.successors = .singleton 0x22 := by
  have hslow : (classify Lifted.slowCall).map (·.body.insts) =
      .ok [.marker 0x10, .setPc 0x10, .readReg 0 "rax", .setPc 0x10, .marker 0x12, .setPc 0x12,
        .callMarker (.pc 0x20) true .env, .exit] := by decide +kernel
  have hnext : (classify Lifted.callNext).map (·.kind) = .ok .fallthrough := by decide +kernel
  have hraw : ∀ u ∈ [Lifted.slowCall, Lifted.callNext], ∀ i ∈ u.body.insts, i.marker? = none := by
    decide
  obtain ⟨slow, hs, hinsts⟩ := Checked.map_eq_ok.mp hslow
  obtain ⟨next, hn, -⟩ := Checked.map_eq_ok.mp hnext
  have hfaithful := classify_faithful hs fun pc hpc =>
    nomatch hraw _ (List.mem_cons_self ..) _ hpc
  have honward := classify_faithful hn fun pc hpc =>
    nomatch hraw _ (List.mem_cons_of_mem _ (List.mem_cons_self ..)) _ hpc
  obtain ⟨hkind, -, hcalls, hsuccessors⟩ := honward.onward rfl (by decide)
  refine ⟨slow, next, hs, hn, hinsts, ?_, hkind, hcalls, ?_⟩
  · rw [hfaithful.boundaries]
    decide
  · rw [hsuccessors]
    decide

end FlowRecovery
