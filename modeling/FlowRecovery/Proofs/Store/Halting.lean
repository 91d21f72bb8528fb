/-
Halting, followed through splits.

The block of a unit is flagged if execution stops in its code, and then it leads nowhere.
A split hands the flag and the successors to the second half and lets the first one go on
to the cut, wherever in the code execution stops.  So the flags stay right as long as no
block is divided behind a halt, and no longer.

* `Halves.tracksHalting_first`, `Halves.tracksHalting_second` — when the flags of the
  halves are right;
* `BuiltOf.tracksHalting` — the flags are right if no unit starts behind a halt;
* `halting_tracked_iff` — and only then.
-/
import FlowRecovery.Proofs.Store.Insertion

namespace FlowRecovery

/-- Instructions that define nothing are not carried over. -/
theorem Body.mem_carry {i : Inst} (hi : i.def? = none) (needed : List Temp)
    (carried earlier : List Inst) : i ∈ carry needed carried earlier ↔ i ∈ carried := by
  induction earlier generalizing needed carried with
  | nil => rfl
  | cons j earlier ih =>
    unfold carry
    split
    · next t ht =>
      split
      · rw [ih, List.mem_cons, or_iff_right]
        rintro rfl
        rw [hi] at ht
        cases ht
      · exact ih _ _
    · exact ih _ _

namespace Block

variable {b first second : Block} {at_ : Addr} {starts : Addr → Prop}

/-- The flag of the block says whether execution stops in its own code, and a block in which
it does leads nowhere. -/
structure TracksHalting (b : Block) : Prop where
  halts : b.halts = true ↔ .halt ∈ b.body.insts
  successors : .halt ∈ b.body.insts → b.successors = ∅

/-- None of the starts is a boundary of the block behind a halt. -/
def HaltsBehind (starts : Addr → Prop) (b : Block) : Prop :=
  b.body.insts.Pairwise fun i j => i = .halt → ∀ a ∈ j.marker?, ¬ starts a

theorem Classified.tracksHalting {u : Lifted} (h : Classified u b) : b.TracksHalting := by
  have hhalts : b.halts = true ↔ .halt ∈ b.body.insts := by
    rw [h.halts, Body.hasHalt, List.contains_iff_mem]
  refine ⟨hhalts, fun hmem => ?_⟩
  rw [h.successors, if_pos (hhalts.mpr hmem)]

/-- The flag of the first half is right if and only if the block is not cut behind a halt. -/
theorem Halves.tracksHalting_first (hv : b.Halves at_ first second) :
    first.TracksHalting ↔ .halt ∉ first.body.insts := by
  constructor
  · intro htracks hmem
    have hhalts := htracks.halts.mpr hmem
    rw [hv.halts_first] at hhalts
    cases hhalts
  · intro hnot
    exact ⟨by simp [hv.halts_first, hnot], fun hmem => absurd hmem hnot⟩

/-- Then the flag of the second half is right as well. -/
theorem Halves.tracksHalting_second (hv : b.Halves at_ first second) (hb : b.Sound)
    (h : b.TracksHalting) (hnot : .halt ∉ first.body.insts) : second.TracksHalting := by
  obtain ⟨pre, post, hcut, hbefore, hfrom⟩ := hb.exists_parts hv.inside
  rw [hv.body_first, Option.some.injEq] at hbefore
  rw [hv.body_second, Option.some.injEq] at hfrom
  have hmem : .halt ∈ second.body.insts ↔ .halt ∈ b.body.insts := by
    have hnotPre : .halt ∉ pre := by simpa [hbefore, Body.rawEnd] using hnot
    simp [hfrom, hcut, hnotPre, Body.mem_carry (i := .halt) rfl]
  constructor
  · rw [hv.halts_second, hmem, h.halts]
  · rw [hv.successors_second, hmem]
    exact h.successors

/-- Cut at a start, a block whose flag is right falls into two such blocks. -/
theorem TracksHalting.splitStable :
    Store.SplitStable starts fun b => b.Sound ∧ b.TracksHalting ∧ b.HaltsBehind starts := by
  rintro b at_ first second ⟨hb, htracks, hbehind⟩ hat hv
  obtain ⟨hsound1, hsound2⟩ := Sound.splitStable hb trivial hv
  obtain ⟨pre, post, hcut, hbefore, hfrom⟩ := hb.exists_parts hv.inside
  rw [hv.body_first, Option.some.injEq] at hbefore
  rw [hv.body_second, Option.some.injEq] at hfrom
  rw [HaltsBehind, hcut] at hbehind
  obtain ⟨-, hpost, hpre⟩ := List.pairwise_append.mp hbehind
  have hnot : .halt ∉ first.body.insts := by
    have hnotPre : .halt ∉ pre := fun hmem => hpre _ hmem _ List.mem_cons_self rfl at_ rfl hat
    simpa [hbefore, Body.rawEnd] using hnotPre
  refine ⟨⟨hsound1, hv.tracksHalting_first.mpr hnot, ?_⟩,
    hsound2, hv.tracksHalting_second hb htracks hnot, ?_⟩
  · refine List.pairwise_of_forall_mem_list fun i hi j _ heq => ?_
    exact absurd (heq ▸ hi) hnot
  · -- In front of the code behind the cut stand its marker and definitions.
    have hcarried : ∀ i ∈ Body.carry (Body.openTemps (.marker at_ :: post)) [] pre.reverse,
        i ≠ .halt := by
      rintro i hi rfl
      rw [Body.mem_carry rfl] at hi
      cases hi
    rw [HaltsBehind, hfrom]
    refine List.pairwise_cons.mpr ⟨?_, List.pairwise_append.mpr ⟨?_, ?_, ?_⟩⟩
    · intro _ _ heq
      cases heq
    · exact List.pairwise_of_forall_mem_list fun i hi j _ heq => absurd heq (hcarried i hi)
    · exact (List.pairwise_cons.mp hpost).2
    · exact fun i hi j _ heq => absurd heq (hcarried i hi)

/-- No code stands before the marker of the block's own start. -/
theorem Sound.eq_nil_of_cut (hb : b.Sound) {pre post : List Inst}
    (hcut : b.body.insts = pre ++ .marker b.address :: post) : pre = [] := by
  cases pre with
  | nil => rfl
  | cons i pre =>
    have hstart := hb.lawful.start
    rw [hcut, List.cons_append, List.head?_cons, Option.some.injEq] at hstart
    subst hstart
    -- The marker would stand there twice.
    have hlt := (hb.lawful.markers_cut hcut).2.1 b.address List.mem_cons_self
    exact absurd hlt (UInt64.lt_irrefl _)

/-- A block stops behind the starts if no cut at a start leaves a halt in front of it. -/
theorem haltsBehind_of_cuts (hb : b.Sound)
    (h : ∀ a before, starts a → b.body.cutBefore? a = some before → .halt ∉ before.insts) :
    b.HaltsBehind starts := by
  rw [HaltsBehind, List.pairwise_iff_getElem]
  rintro m n hm hn hlt hhalt a ha hstart
  -- The marker at `n` cuts the code, and the halt stands before it.
  have hmarker : b.body.insts[n] = .marker a := by
    cases hi : b.body.insts[n] with
    | marker pc =>
      rw [hi] at ha
      cases ha
      rfl
    | _ => rw [hi] at ha; cases ha
  have hcut : b.body.insts = b.body.insts.take n ++ .marker a :: b.body.insts.drop (n + 1) := by
    rw [← hmarker, ← List.drop_eq_getElem_cons hn, List.take_append_drop]
  have hbefore := Body.cutBefore?_eq hcut (Body.get?_boundaries hb.lawful.increasing hcut)
  refine h a _ hstart hbefore (List.mem_append_left _ ?_)
  rw [← hhalt]
  exact List.mem_take_iff_getElem.mpr ⟨m, by omega, rfl⟩

end Block

namespace Store

variable {U : Lifted → Prop} {s : Store} {b c first second : Block}

/-- Insert the block of a unit, if it can be classified. -/
def insertUnit (s : Store) (u : Lifted) : Store :=
  match Block.classify u with
  | .ok b => (s.insert b).1
  | .error _ => s

theorem BuiltOf.insertUnit {u : Lifted} (h : BuiltOf U s) (hu : U u) :
    BuiltOf U (s.insertUnit u) := by
  unfold Store.insertUnit
  split
  · next b hb => exact .insert h hu hb
  · exact h

/-- The store of units. -/
def ofUnits (units : List Lifted) : Store := units.foldl insertUnit {}

theorem builtOf_ofUnits {units : List Lifted} (h : ∀ u ∈ units, U u) : BuiltOf U (ofUnits units) :=
  List.foldlRecOn units insertUnit .empty fun _ hs u hu => hs.insertUnit (h u hu)

/-- A flagged block leads nowhere. -/
theorem BuiltOf.successors_of_halts (h : BuiltOf U s) {k : Addr} (hget : s.get? k = some b)
    (hhalts : b.halts = true) : b.successors = ∅ := by
  have hst : SplitStable (fun _ => True) fun b => b.halts = true → b.successors = ∅ := by
    intro b at_ first second hb _ hv
    refine ⟨fun hfirst => ?_, fun hsecond => ?_⟩
    · rw [hv.halts_first] at hfirst
      cases hfirst
    · rw [hv.successors_second]
      exact hb (hv.halts_second ▸ hsecond)
  refine ((h.everywhere hst fun u b _ hb => ⟨trivial, fun hhalts => ?_⟩).stored k b hget).2.2 hhalts
  have htracks := (Block.classified_of_classify hb).tracksHalting
  exact htracks.successors (htracks.halts.mp hhalts)

/-- The flags of all blocks are right if no unit starts behind a halt of another. -/
theorem BuiltOf.tracksHalting
    (hU : ∀ u v b c, U u → U v → Block.classify u = .ok b → Block.classify v = .ok c →
      ∀ before, b.body.cutBefore? c.address = some before → .halt ∉ before.insts)
    (h : BuiltOf U s) {k : Addr} (hget : s.get? k = some b) : b.TracksHalting := by
  let starts : Addr → Prop := fun a => ∃ v c, U v ∧ Block.classify v = .ok c ∧ Block.address c = a
  have hunits : ∀ u b, U u → Block.classify u = .ok b →
      starts b.address ∧ b.Sound ∧ b.TracksHalting ∧ b.HaltsBehind starts := by
    intro u b hu hb
    have hc := Block.classified_of_classify hb
    have hsound := Block.Sound.of_classified hc
    refine ⟨⟨u, b, hu, hb, rfl⟩, hsound, hc.tracksHalting, Block.haltsBehind_of_cuts hsound ?_⟩
    rintro a before ⟨v, c, hv, hclass, rfl⟩ hbefore
    exact hU u v b c hu hv hb hclass before hbefore
  exact ((h.everywhere Block.TracksHalting.splitStable hunits).stored k b hget).2.2.2.1

/-- A block that starts at a boundary of the only stored one divides it. -/
theorem get?_insert_insert (hb : b.Sound) (hc : c.Sound)
    (hv : b.Halves c.address first second) :
    ((({} : Store).insert b).1.insert c).1.get? b.address = some first := by
  have hlt : b.address.toNat < c.address.toNat := by
    have hpos := (Block.Sound.splitStable hb trivial hv).1.size_pos
    have := hv.stop_first
    omega
  have hstop : c.address.toNat < b.stop := by
    have hpos := (Block.Sound.splitStable hb trivial hv).2.size_pos
    have := hv.stop_second
    rw [Block.stop]
    omega
  have hput : ({} : Store).insert b = (({} : Store).put b, .ok ()) := by
    have hout : ¬ ({} : Store).contains b.address = true := Bool.false_ne_true
    have hempty : ∀ a e, ¬ ({} : Store).get? a = some e := by
      intro a e he
      cases he
    have hno : ∀ e, ¬ ({} : Store).Divides b e := fun e he => hempty _ e he.stored
    have hapart : ∀ k e, ({} : Store).get? k = some e →
        e.stop ≤ b.address.toNat ∨ b.stop ≤ k.toNat := fun k e he => absurd he (hempty k e)
    exact (Course.keep rfl hout hno (Sound.empty.turn_of_apart hb hapart)).insert_eq
  have hsound : (({} : Store).put b).Sound := by
    have h := Sound.empty.insert hb
    rwa [hput] at h
  have hstored : (({} : Store).put b).get? b.address = some b := by
    rw [get?_put, if_pos rfl]
  have honly : ∀ a, (({} : Store).put b).contains a = true → a = b.address := by
    intro a ha
    rw [contains_put] at ha
    exact ha.resolve_right Bool.false_ne_true
  have hbetween : (({} : Store).put b).between c = [] := by
    refine List.eq_nil_iff_forall_not_mem.mpr fun a ha => ?_
    obtain ⟨hin, hlow, -⟩ := mem_between.mp ha
    rw [honly a hin] at hlow
    omega
  have hdivides : (({} : Store).put b).Divides c b :=
    ⟨hstored, UInt64.lt_iff_toNat_lt.mpr hlt, hstop⟩
  have hcourse := hsound.course_insert hc
  have hok : ((({} : Store).put b).insert c).2 = .ok () := by
    refine (hcourse.ok_iff hsound hc).mpr ⟨by simp [hbetween], fun e he => ?_⟩
    rw [hdivides.unique hsound he]
    exact hv.inside
  have hdivided := ((hcourse.spliced hsound hc hok).divided b hdivides).1
  rw [hput, hdivided, Block.slice?, hv.upTo?_eq, Option.bind_some, if_pos rfl]

/-- **When halting is tracked through splits.**  A flagged block never leads anywhere.  But
the flags say where execution stops in all stores that are made of certain units if and
only if none of these units starts at a boundary of another one behind a halt. -/
theorem halting_tracked_iff (U : Lifted → Prop) :
    (∀ s, BuiltOf U s → ∀ k b, s.get? k = some b → b.halts = true → b.successors = ∅) ∧
    ((∀ s, BuiltOf U s → ∀ k b, s.get? k = some b → b.TracksHalting) ↔
      ∀ u v b c, U u → U v → Block.classify u = .ok b → Block.classify v = .ok c →
        ∀ before, b.body.cutBefore? c.address = some before → .halt ∉ before.insts) := by
  refine ⟨fun s hs k b hget hhalts => hs.successors_of_halts hget hhalts, ?_,
    fun hU s hs k b hget => hs.tracksHalting hU hget⟩
  intro hall u v b c hu hv hb hc before hbefore
  have hsoundb := Block.Sound.of_classified (Block.classified_of_classify hb)
  have hsoundc := Block.Sound.of_classified (Block.classified_of_classify hc)
  have hin : b.boundaries.contains c.address = true := by
    obtain ⟨n, hn, -⟩ := Option.map_eq_some_iff.mp hbefore
    exact Option.isSome_iff_exists.mpr ⟨n, hn⟩
  by_cases hne : c.address = b.address
  · -- Before the start there is no code.
    rw [hne] at hin hbefore
    obtain ⟨pre, post, hcut, hcutBefore, -⟩ := hsoundb.exists_parts hin
    obtain rfl := hsoundb.eq_nil_of_cut hcut
    rw [hbefore, Option.some.injEq] at hcutBefore
    simp [hcutBefore, Body.rawEnd]
  · obtain ⟨⟨first, second⟩, hsplit⟩ := hsoundb.split_of_boundary hin hne
    have hhalves := Block.halves_of_split hsplit
    have htracks := hall _ ((BuiltOf.empty.insert hu hb).insert hv hc) _ first
      (get?_insert_insert hsoundb hsoundc hhalves)
    rw [hhalves.body_first, Option.some.injEq] at hbefore
    rw [← hbefore]
    exact hhalves.tracksHalting_first.mp htracks

end Store

/-- A unit of two instructions; execution stops in the first. -/
def Lifted.stopsFirst : Lifted :=
  { address := 16, size := 4, kind := .fallthrough
    body := { insts := [.setPc 16, .halt, .setPc 18, .branch (.pc 20), .exit], nextTemp := 0 } }

/-- The block of that unit. -/
def Block.stopsFirst : Block :=
  { address := 16, size := 4, kind := .fallthrough, halts := true
    body := { insts := [.marker 16, .setPc 16, .halt, .marker 18, .setPc 18, .branch (.pc 20),
                .exit], nextTemp := 0 } }

/-- Divided behind the halt, the block in which execution stops is not flagged and goes on to
the other half, which is flagged although execution does not stop in it. -/
theorem Store.halting_untracked :
    ∃ (s : Store) (first second : Block), Built s ∧
      s.get? 16 = some first ∧ .halt ∈ first.body.insts ∧ first.halts = false ∧
      first.successors = .singleton 18 ∧
      s.get? 18 = some second ∧ .halt ∉ second.body.insts ∧ second.halts = true := by
  have h16 : Block.classify .stopsFirst = .ok .stopsFirst := by decide
  have h18 : Block.classify (.twoSteps 18) = .ok (.twoSteps 18) := by decide
  have hbuilt := (Built.empty.insert h16).insert h18
  have hfirst : ((({} : Store).insert .stopsFirst).1.insert (.twoSteps 18)).1.get? 16 = some
      { address := 16, size := 2, kind := .fallthrough, successors := .singleton 18
        body := { insts := [.marker 16, .setPc 16, .halt, .branch (.pc 18), .exit]
                  nextTemp := 0 } } := by decide +kernel
  have hsecond : ((({} : Store).insert .stopsFirst).1.insert (.twoSteps 18)).1.get? 18 = some
      { address := 18, size := 2, kind := .fallthrough, halts := true
        body := { insts := [.marker 18, .setPc 18, .branch (.pc 20), .exit], nextTemp := 0 } } := by
    decide +kernel
  exact ⟨_, _, _, hbuilt, hfirst, by decide, rfl, rfl, hsecond, by decide, rfl⟩

end FlowRecovery
