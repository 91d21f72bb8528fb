/-
Cutting a body that keeps the contract.

A lawful body can be cut at each of its markers.  The code before the cut keeps the
contract once it is closed with a branch to the cut.  The code behind it may read
temporaries of the code before; `carry` goes back through that code and takes along
the definitions that are still needed, so what is needed is at every point defined
in the code that is still to be gone through (`readsDefined_carry`).

* `Lawful.before`, `Lawful.behind` — both parts keep the contract;
* `Sound.split_of_boundary`, `Sound.split_eq_error` — a sound block can be split at
  each of its boundaries but its start, and nowhere else;
* `Halves.branchTarget?_second`, `Halves.definition?_second` — the second half
  branches to what the block branched to, and computes it in the same way.
-/
import FlowRecovery.Proofs.Body.Checks
import FlowRecovery.Proofs.Store.Disjoint

namespace FlowRecovery

namespace Body

/-! ### Where the markers stand -/

theorem mem_markersFrom {n m : Nat} {pc : Addr} {insts : List Inst} :
    (pc, m) ∈ markersFrom n insts ↔ ∃ k, m = n + k ∧ insts[k]? = some (.marker pc) := by
  induction insts generalizing n with
  | nil => simp [markersFrom]
  | cons i insts ih =>
    -- Behind the first instruction, positions are counted from one more.
    have hrest : (pc, m) ∈ markersFrom (n + 1) insts ↔
        ∃ k, m = n + (k + 1) ∧ (i :: insts)[k + 1]? = some (.marker pc) := by
      simp only [ih, List.getElem?_cons_succ, Nat.add_assoc, Nat.add_comm 1]
    have hsplit : (∃ k, m = n + k ∧ (i :: insts)[k]? = some (.marker pc)) ↔
        (m = n ∧ i = .marker pc) ∨ (pc, m) ∈ markersFrom (n + 1) insts := by
      rw [hrest]
      constructor
      · rintro ⟨k, hm, hk⟩
        cases k with
        | zero => exact Or.inl ⟨hm, by simpa using hk⟩
        | succ k => exact Or.inr ⟨k, hm, hk⟩
      · rintro (⟨hm, hi⟩ | ⟨k, hm, hk⟩)
        · exact ⟨0, hm, by simp [hi]⟩
        · exact ⟨k + 1, hm, hk⟩
    rw [hsplit]
    cases i with
    | marker p =>
      rw [markersFrom, List.mem_cons, Prod.mk.injEq, Inst.marker.injEq, and_comm, eq_comm (a := pc)]
    | _ => simp [markersFrom]

theorem pairwise_markersFrom (n : Nat) (insts : List Inst) :
    (markersFrom n insts).Pairwise (fun a b => a.2 < b.2) := by
  induction insts generalizing n with
  | nil => exact List.Pairwise.nil
  | cons i insts ih =>
    cases i with
    | marker pc =>
      refine List.pairwise_cons.mpr ⟨?_, ih (n + 1)⟩
      rintro ⟨p, m⟩ hp
      obtain ⟨k, rfl, -⟩ := mem_markersFrom.mp hp
      show n < n + 1 + k
      omega
    | _ => exact ih (n + 1)

/-- If markers increase, the boundaries are the markers with their positions. -/
theorem entries_boundaries {b : Body} (h : (markers b.insts).Pairwise (· < ·)) :
    b.boundaries.entries = markersFrom 0 b.insts := by
  refine AddrMap.entries_ofList ?_
  rw [← map_markersFrom 0, List.pairwise_map] at h
  exact h

/-- A boundary of a body parts its code at the marker. -/
theorem exists_cut {b : Body} {pc : Addr} {n : Nat} (h : (markers b.insts).Pairwise (· < ·))
    (hn : b.boundaries.get? pc = some n) :
    ∃ pre post, b.insts = pre ++ .marker pc :: post ∧ pre.length = n := by
  have hmem := AddrMap.mem_entries_iff.mpr hn
  rw [entries_boundaries h] at hmem
  obtain ⟨k, rfl, hk⟩ := mem_markersFrom.mp hmem
  obtain ⟨hlt, hget⟩ := List.getElem?_eq_some_iff.mp hk
  refine ⟨b.insts.take k, b.insts.drop (k + 1), ?_, by simp; omega⟩
  rw [← hget, List.getElem_cons_drop, List.take_append_drop]

theorem cutBefore?_eq {b : Body} {pc : Addr} {pre post : List Inst}
    (hb : b.insts = pre ++ .marker pc :: post) (hn : b.boundaries.get? pc = some pre.length) :
    b.cutBefore? pc = some { b with insts := pre ++ rawEnd (some (.pc pc)) } := by
  rw [cutBefore?, hn, hb]
  simp [rawEnd]

theorem cutFrom?_eq {b : Body} {pc : Addr} {pre post : List Inst}
    (hb : b.insts = pre ++ .marker pc :: post) (hn : b.boundaries.get? pc = some pre.length) :
    b.cutFrom? pc = some { b with
      insts := .marker pc :: (carry (openTemps (.marker pc :: post)) [] pre.reverse ++ post) } := by
  rw [cutFrom?, hn, hb]
  simp

/-! ### What is carried over -/

/-- What is carried over stands in the order of the code it is from. -/
theorem carry_eq (needed : List Temp) (carried earlier : List Inst) :
    ∃ kept, carry needed carried earlier = kept ++ carried ∧ kept.Sublist earlier.reverse := by
  induction earlier generalizing needed carried with
  | nil => exact ⟨[], rfl, List.Sublist.refl _⟩
  | cons i earlier ih =>
    have hskip : ∀ kept : List Inst, kept.Sublist earlier.reverse →
        kept.Sublist (i :: earlier).reverse := by
      intro kept hsub
      rw [List.reverse_cons]
      exact hsub.trans (List.sublist_append_left _ _)
    unfold carry
    split
    · split
      · obtain ⟨kept, hkept, hsub⟩ := ih _ (i :: carried)
        refine ⟨kept ++ [i], by rw [hkept, List.append_assoc]; rfl, ?_⟩
        rw [List.reverse_cons]
        exact hsub.append (List.Sublist.refl _)
      · obtain ⟨kept, hkept, hsub⟩ := ih needed carried
        exact ⟨kept, hkept, hskip kept hsub⟩
    · obtain ⟨kept, hkept, hsub⟩ := ih needed carried
      exact ⟨kept, hkept, hskip kept hsub⟩

/-- With the definitions that are carried over, code reads only what is defined before. -/
theorem readsDefined_carry {needed : List Temp} {carried earlier rest : List Inst}
    (h : ReadsDefined needed (carried ++ rest)) (hearlier : ReadsDefined [] earlier.reverse)
    (hneeded : ∀ t ∈ needed, t ∈ definitions earlier.reverse) :
    ReadsDefined [] (carry needed carried earlier ++ rest) := by
  -- The invariant: what is needed is defined in the code that is still to be gone through.
  induction earlier generalizing needed carried with
  | nil => exact h.mono fun t ht => nomatch hneeded t ht
  | cons i earlier ih =>
    rw [List.reverse_cons] at hearlier hneeded
    obtain ⟨hearlier, huses, -⟩ := ReadsDefined.append.mp hearlier
    rw [List.append_nil] at huses
    simp only [definitions_append, definitions_cons, List.mem_append] at hneeded
    unfold carry
    split
    · next t ht =>
      split
      · refine ih ⟨fun u hu => List.mem_append_right _ hu, ?_⟩ hearlier fun u hu => ?_
        · refine h.mono fun u hu => ?_
          by_cases hut : u = t <;> simp [ht, hut, hu]
        · rcases List.mem_append.mp hu with hu | hu
          · obtain ⟨hu, hut⟩ := List.mem_filter.mp hu
            simp only [ht, Option.toList_some, List.mem_singleton] at hneeded
            have hut : u ≠ t := of_decide_eq_true hut
            exact (hneeded u hu).resolve_right (by simpa [definitions] using hut)
          · exact huses u hu
      · next hnot =>
        refine ih h hearlier fun u hu => (hneeded u hu).resolve_right ?_
        rintro (hut | hut)
        · rw [ht, Option.toList_some, List.mem_singleton] at hut
          exact hnot (hut ▸ hu)
        · cases hut
    · next hnone =>
      refine ih h hearlier fun u hu => (hneeded u hu).resolve_right ?_
      simp [hnone, definitions]

/-- Code behind a cut reads what is defined in it before, and what is needed. -/
theorem readsDefined_openTemps {pre rest : List Inst} (h : ReadsDefined [] (pre ++ rest))
    (hnodup : (definitions (pre ++ rest)).Nodup) : ReadsDefined (openTemps rest) rest := by
  obtain ⟨-, hrest⟩ := ReadsDefined.append.mp h
  rw [List.append_nil] at hrest
  rw [definitions_append] at hnodup
  have hapart := (List.nodup_append.mp hnodup).2.2
  -- By induction along the code, whose part gone through is `l`.
  have hgo : ∀ l m, rest = l ++ m → ReadsDefined (definitions l ++ definitions pre) m →
      ReadsDefined (definitions l ++ openTemps rest) m := by
    intro l m hlm hm
    induction m generalizing l with
    | nil => trivial
    | cons i m ih =>
      refine ⟨fun t ht => ?_, ?_⟩
      · rcases List.mem_append.mp (hm.1 t ht) with hdef | hdef
        · exact List.mem_append_left _ hdef
        · refine List.mem_append_right _ (List.mem_filter.mpr ⟨?_, ?_⟩)
          · rw [hlm]
            exact List.mem_flatMap.mpr ⟨i, by simp, ht⟩
          · have hnot : t ∉ definitions rest := fun hmem => hapart t hdef t hmem rfl
            simpa [definitions] using hnot
      · have hnext := ih (l ++ [i]) (by rw [hlm, List.append_assoc]; rfl) (hm.2.mono fun t ht => ?_)
        · refine hnext.mono fun t ht => ?_
          simp only [definitions_append, definitions_cons, List.mem_append] at ht ⊢
          simp only [definitions, List.filterMap_nil, List.not_mem_nil, or_false] at ht
          tauto
        · simp only [definitions_append, definitions_cons, List.mem_append] at ht ⊢
          tauto
  exact hgo [] rest rfl hrest

/-! ### The two parts -/

/-- A marker stands before the raw end. -/
theorem exists_rawEnd_of_marker {pre post code : List Inst} {pc : Addr} {target : Option Operand}
    (h : pre ++ .marker pc :: post = code ++ rawEnd target) :
    ∃ post', post = post' ++ rawEnd target ∧ code = pre ++ .marker pc :: post' := by
  have hnot : Inst.marker pc ∉ rawEnd target := by
    cases target <;> simp [rawEnd]
  rcases List.append_eq_append_iff.mp h with ⟨l, hcode, hend⟩ | ⟨l, -, hend⟩
  · cases l with
    | nil =>
      rw [List.nil_append] at hend
      exact absurd (hend ▸ List.mem_cons_self) hnot
    | cons i l =>
      rw [List.cons_append, List.cons.injEq] at hend
      exact ⟨l, hend.2, by rw [hcode, ← hend.1]⟩
  · exact absurd (hend ▸ List.mem_append_right l List.mem_cons_self) hnot

theorem saturatingAdd_eq {a n limit : Word} (h : a.toNat + n.toNat = limit.toNat) :
    saturatingAdd a n = limit := by
  have hlt := limit.toNat_lt
  rw [← UInt64.toNat_inj, toNat_saturatingAdd]
  omega

section Parts

variable {b : Body} {address pc : Addr} {size n : Word} {pre post : List Inst}

theorem Lawful.markers_cut (h : b.Lawful address size)
    (hcut : b.insts = pre ++ .marker pc :: post) :
    (markers pre).Pairwise (· < ·) ∧ (∀ p ∈ markers pre, p < pc) ∧
      (pc :: markers post).Pairwise (· < ·) := by
  have hpair := h.increasing
  rw [hcut, markers_append] at hpair
  obtain ⟨hpre, hpost, hbelow⟩ := List.pairwise_append.mp hpair
  exact ⟨hpre, fun p hp => hbelow p hp pc List.mem_cons_self, hpost⟩

/-- The code before a cut, closed with a branch to the cut, keeps the contract. -/
theorem Lawful.before (h : b.Lawful address size) (hcut : b.insts = pre ++ .marker pc :: post)
    (hne : pc ≠ address) (hn : address.toNat + n.toNat = pc.toNat) :
    ({ b with insts := pre ++ rawEnd (some (.pc pc)) } : Body).Lawful address n := by
  obtain ⟨hpre, hbelow, -⟩ := h.markers_cut hcut
  have hmarkers : markers (pre ++ rawEnd (some (.pc pc))) = markers pre := by
    rw [markers_append]
    exact List.append_nil _
  have hdefinitions : definitions (pre ++ rawEnd (some (.pc pc))) = definitions pre := by
    rw [definitions_append]
    exact List.append_nil _
  have hsub : (definitions pre).Sublist (definitions b.insts) := by
    rw [hcut, definitions_append]
    exact List.sublist_append_left _ _
  refine ⟨?_, ?_, ?_, ?_, ?_, ?_, ?_, ?_⟩
  · rintro rfl
    exact hne (UInt64.toNat_inj.mp hn.symm)
  · have hstart := h.start
    rw [hcut] at hstart
    cases pre with
    | nil => exact absurd (by simpa using hstart) hne
    | cons i pre => exact hstart
  · intro p hp
    rw [hmarkers] at hp
    have hin := h.inside p (by rw [hcut, markers_append]; exact List.mem_append_left _ hp)
    exact ⟨hin.1, by rw [saturatingAdd_eq hn]; exact hbelow p hp⟩
  · rw [hmarkers]
    exact hpre
  · obtain ⟨code, target, hcode, hinner⟩ := h.ending
    obtain ⟨post', -, rfl⟩ := exists_rawEnd_of_marker (hcut.symm.trans hcode)
    exact ⟨pre, some (.pc pc), rfl, fun i hi => hinner i (List.mem_append_left _ hi)⟩
  · have hreads := h.reads
    rw [hcut] at hreads
    refine ReadsDefined.append.mpr ⟨(ReadsDefined.append.mp hreads).1, ?_⟩
    simp [rawEnd, ReadsDefined, Inst.uses, Inst.operands, Operand.temp?]
  · rw [hdefinitions]
    exact h.nodup.sublist hsub
  · intro t ht
    rw [hdefinitions] at ht
    exact h.range t (hsub.subset ht)

/-- The code behind a cut, with what is carried over, keeps the contract. -/
theorem Lawful.behind (h : b.Lawful address size) (hcut : b.insts = pre ++ .marker pc :: post)
    (hn : saturatingAdd pc n = saturatingAdd address size) :
    ({ b with insts := .marker pc :: (carry (openTemps (.marker pc :: post)) [] pre.reverse ++
        post) } : Body).Lawful pc n := by
  obtain ⟨-, -, hpost⟩ := h.markers_cut hcut
  obtain ⟨kept, hkept, hsub⟩ := carry_eq (openTemps (.marker pc :: post)) [] pre.reverse
  rw [List.append_nil] at hkept
  rw [List.reverse_reverse] at hsub
  have hlimit : pc < saturatingAdd address size :=
    (h.inside pc (by rw [hcut]; simp [markers, Inst.marker?])).2
  have hmarkers : markers (.marker pc :: (kept ++ post)) = pc :: markers post := by
    have hnone : markers kept = [] := hkept ▸ markers_carry _ [] _
    show pc :: markers (kept ++ post) = _
    rw [markers_append, hnone, List.nil_append]
  have hdefs : (definitions (.marker pc :: (kept ++ post))).Sublist (definitions b.insts) := by
    rw [hcut, definitions_append]
    show (definitions (kept ++ post)).Sublist (definitions pre ++ definitions post)
    rw [definitions_append]
    exact (hsub.filterMap _).append (List.Sublist.refl _)
  rw [hkept]
  refine ⟨?_, rfl, ?_, ?_, ?_, ?_, ?_, ?_⟩
  · rintro rfl
    rw [← hn, UInt64.lt_iff_toNat_lt, toNat_saturatingAdd] at hlimit
    have := pc.toNat_lt
    simp at hlimit
  · intro p hp
    rw [hmarkers] at hp
    refine ⟨?_, ?_⟩
    · rcases List.mem_cons.mp hp with rfl | hp
      · exact UInt64.le_refl _
      · exact UInt64.le_of_lt ((List.pairwise_cons.mp hpost).1 p hp)
    · rw [hn]
      exact (h.inside p (by rw [hcut, markers_append]; exact List.mem_append_right _ hp)).2
  · rw [hmarkers]
    exact hpost
  · obtain ⟨code, target, hcode, hinner⟩ := h.ending
    obtain ⟨post', rfl, rfl⟩ := exists_rawEnd_of_marker (hcut.symm.trans hcode)
    refine ⟨.marker pc :: (kept ++ post'), target, by simp, fun i hi => hinner i ?_⟩
    simp only [List.mem_cons, List.mem_append] at hi ⊢
    rcases hi with hi | hi | hi
    · exact Or.inr (Or.inl hi)
    · exact Or.inl (hsub.subset hi)
    · exact Or.inr (Or.inr hi)
  · have hreads := h.reads
    have hnodup := h.nodup
    rw [hcut] at hreads hnodup
    have hopen := readsDefined_openTemps hreads hnodup
    -- What is needed is defined before the cut, since it is not defined behind it.
    have hneeded : ∀ t ∈ openTemps (.marker pc :: post), t ∈ definitions pre := by
      intro t ht
      obtain ⟨hread, hnot⟩ := List.mem_filter.mp ht
      obtain ⟨i, hi, ht⟩ := List.mem_flatMap.mp hread
      rcases (ReadsDefined.append.mp hreads).2.mem_of_uses hi ht with hdef | hdef
      · exact absurd hdef (by simpa [definitions] using hnot)
      · simpa using hdef
    have hcarry : ReadsDefined [] (carry (openTemps (.marker pc :: post)) [] pre.reverse ++
        .marker pc :: post) := readsDefined_carry hopen
      (by rw [List.reverse_reverse]; exact (ReadsDefined.append.mp hreads).1)
      (by rw [List.reverse_reverse]; exact hneeded)
    rw [hkept] at hcarry
    obtain ⟨hleft, -, hright⟩ := ReadsDefined.append.mp hcarry
    exact ⟨by simp [Inst.uses, Inst.operands], ReadsDefined.append.mpr ⟨hleft, hright⟩⟩
  · exact h.nodup.sublist hdefs
  · exact fun t ht => h.range t (hdefs.subset ht)

end Parts

/-- The code behind a cut ends as the body does. -/
theorem Lawful.branchTarget?_behind {b c : Body} {address pc : Addr} {size : Word}
    {pre post kept : List Inst} (h : b.Lawful address size)
    (hcut : b.insts = pre ++ .marker pc :: post) (hsub : kept.Sublist pre)
    (hc : c.insts = .marker pc :: (kept ++ post)) : c.branchTarget? = b.branchTarget? := by
  obtain ⟨code, target, hcode, hinner⟩ := h.ending
  obtain ⟨post', rfl, rfl⟩ := exists_rawEnd_of_marker (hcut.symm.trans hcode)
  have hc' : c.insts = (.marker pc :: (kept ++ post')) ++ rawEnd target := by
    rw [hc, List.cons_append, List.append_assoc]
  rw [branchTarget?_of_rawEnd hcode hinner, branchTarget?_of_rawEnd hc' fun i hi => ?_]
  refine hinner i ?_
  simp only [List.mem_cons, List.mem_append] at hi ⊢
  rcases hi with hi | hi | hi
  · exact Or.inr (Or.inl hi)
  · exact Or.inl (hsub.subset hi)
  · exact Or.inr (Or.inr hi)

/-- The temporary that a lawful body branches to is defined in it. -/
theorem Lawful.exists_definition {b : Body} {address : Addr} {size : Word} {t : Temp}
    (h : b.Lawful address size) (ht : b.branchTarget? = some (.temp t)) :
    ∃ i, b.definition? t = some i := by
  obtain ⟨code, target, hcode, hinner⟩ := h.ending
  rw [branchTarget?_of_rawEnd hcode hinner] at ht
  subst ht
  have hmem : Inst.branch (.temp t) ∈ b.insts := by
    rw [hcode]
    exact List.mem_append_right _ List.mem_cons_self
  have huse : t ∈ (Inst.branch (.temp t)).uses := List.mem_cons_self
  have hdef := (h.reads.mem_of_uses hmem huse).resolve_right List.not_mem_nil
  obtain ⟨i, hi, hit⟩ := List.mem_filterMap.mp hdef
  exact ⟨i, h.definition?_eq_some.mpr ⟨hi, hit⟩⟩

end Body

namespace Block

open Body

variable {b first second : Block} {at_ : Addr}

theorem Sound.lawful (h : b.Sound) : b.body.Lawful b.address b.size :=
  check_iff_lawful.mp h.checked

/-- A sound block has a marker at each of its boundaries. -/
theorem Sound.mem_markers (h : b.Sound) :
    b.boundaries.contains at_ = true ↔ at_ ∈ markers b.body.insts := by
  rw [← keys_boundaries h.checked, AddrMap.mem_keys]
  exact Iff.rfl

/-- The parts that a sound block is cut into at one of its boundaries. -/
theorem Sound.exists_parts (h : b.Sound) (hin : b.boundaries.contains at_ = true) :
    ∃ pre post, b.body.insts = pre ++ .marker at_ :: post ∧
      b.body.cutBefore? at_ = some { b.body with insts := pre ++ rawEnd (some (.pc at_)) } ∧
      b.body.cutFrom? at_ = some { b.body with
        insts := .marker at_ ::
          (carry (openTemps (.marker at_ :: post)) [] pre.reverse ++ post) } := by
  obtain ⟨n, hn⟩ := Option.isSome_iff_exists.mp hin
  obtain ⟨pre, post, hcut, rfl⟩ := exists_cut h.lawful.increasing hn
  exact ⟨pre, post, hcut, cutBefore?_eq hcut hn, cutFrom?_eq hcut hn⟩

theorem exists_checkedSub {ε : Type} {a c : Word} (h : c ≤ a) :
    ∃ d : Word, (checkedSub a c : Checked ε Word) = .ok d ∧ c.toNat + d.toNat = a.toNat := by
  have hle : c.toNat ≤ a.toNat := UInt64.le_iff_toNat_le.mp h
  have hd : a.toNat = c.toNat + (a - c).toNat := by
    rw [UInt64.toNat_sub_of_le _ _ h]
    omega
  exact ⟨a - c, checkedSub_eq_ok.mpr hd, hd.symm⟩

/-- A sound block can be split at each of its boundaries but its start. -/
theorem Sound.split_of_boundary (h : b.Sound) (hin : b.boundaries.contains at_ = true)
    (hne : at_ ≠ b.address) : ∃ halves, b.split at_ = .ok halves := by
  have hlaw := h.lawful
  obtain ⟨pre, post, hcut, hbefore, hfrom⟩ := h.exists_parts hin
  have hmem : at_ ∈ markers b.body.insts := h.mem_markers.mp hin
  -- The start and the cut are two boundaries.
  have hsize : ¬ (b.boundaries.size < 2 ∨ at_ = b.address) := by
    refine not_or.mpr ⟨?_, hne⟩
    obtain ⟨rest, hrest⟩ := markers_of_check h.checked
    have hlen : b.boundaries.size = (markers b.body.insts).length := by
      rw [← keys_boundaries h.checked]
      exact (List.length_map _).symm
    rw [hlen, hrest, List.length_cons]
    rw [hrest] at hmem
    have := List.length_pos_of_mem ((List.mem_cons.mp hmem).resolve_left hne)
    omega
  obtain ⟨hle, hlt⟩ := hlaw.inside at_ hmem
  have hstop : (b.address + b.size).toNat = b.address.toNat + b.size.toNat :=
    toNat_add_of_fits h.fits
  have hlimit : saturatingAdd b.address b.size = b.address + b.size := saturatingAdd_eq hstop.symm
  rw [hlimit] at hlt
  obtain ⟨n, hn, hnat⟩ := exists_checkedSub (ε := BlockError) hle
  obtain ⟨m, hm, hmat⟩ := exists_checkedSub (ε := BlockError) (UInt64.le_of_lt hlt)
  have hlim : (b.limit : Checked BlockError Addr) = .ok (b.address + b.size) :=
    checkedAdd_eq_ok.mpr hstop.symm
  have hfirst := check_iff_lawful.mpr (hlaw.before hcut hne hnat)
  have hsecond := check_iff_lawful.mpr
    (hlaw.behind hcut ((saturatingAdd_eq hmat).trans hlimit.symm))
  have hverify : ∀ (c : Body) (a : Addr) (size : Word), c.check a size = .ok () →
      (Checked.lift ((c.verify a size).mapError BlockError.verify)) = .ok () := fun c a size hc =>
    Checked.lift_eq_ok.mpr (Checked.mapError_eq_ok.mpr (verify_eq_ok.mpr hc))
  unfold split
  rw [if_neg hsize]
  simp only [hbefore, hfrom]
  exact ⟨_, Checked.bind_eq_ok.mpr ⟨n, hn, Checked.bind_eq_ok.mpr ⟨_, hlim, Checked.bind_eq_ok.mpr
    ⟨m, hm, Checked.bind_eq_ok.mpr ⟨(), hverify _ _ _ hfirst, Checked.bind_eq_ok.mpr
      ⟨(), hverify _ _ _ hsecond, rfl⟩⟩⟩⟩⟩⟩

/-- Anywhere else a split is refused, and nothing overflows. -/
theorem Sound.split_eq_error (h : b.Sound) {e : Stop BlockError} (he : b.split at_ = .error e) :
    e = .refused (.notSplittable b.address at_) ∧
      ¬ (b.boundaries.contains at_ = true ∧ at_ ≠ b.address) := by
  have hnot : ¬ (b.boundaries.contains at_ = true ∧ at_ ≠ b.address) := by
    rintro ⟨hin, hne⟩
    obtain ⟨halves, hok⟩ := h.split_of_boundary hin hne
    rw [hok] at he
    cases he
  refine ⟨?_, hnot⟩
  unfold split at he
  by_cases hsize : b.boundaries.size < 2 ∨ at_ = b.address
  · rw [if_pos hsize] at he
    cases he
    rfl
  · rw [if_neg hsize] at he
    have hnone : b.boundaries.get? at_ = none := by
      refine Option.not_isSome_iff_eq_none.mp fun hsome => hnot ⟨hsome, ?_⟩
      exact fun heq => hsize (Or.inr heq)
    have hbefore : b.body.cutBefore? at_ = none := by
      rw [cutBefore?]
      exact Option.map_eq_none_iff.mpr hnone
    simp only [hbefore] at he
    cases he
    rfl

/-! ### Where the halves lead -/

theorem Halves.branchTarget?_first (hs : b.Halves at_ first second) (h : b.Sound) :
    first.body.branchTarget? = some (.pc at_) := by
  obtain ⟨pre, post, hcut, hbefore, -⟩ := h.exists_parts hs.inside
  rw [hs.body_first, Option.some.injEq] at hbefore
  obtain ⟨code, target, hcode, hinner⟩ := h.lawful.ending
  obtain ⟨post', -, rfl⟩ := exists_rawEnd_of_marker (hcut.symm.trans hcode)
  exact branchTarget?_of_rawEnd (by rw [hbefore]) fun i hi => hinner i (List.mem_append_left _ hi)

theorem Halves.branchTarget?_second (hs : b.Halves at_ first second) (h : b.Sound) :
    second.body.branchTarget? = b.body.branchTarget? := by
  obtain ⟨pre, post, hcut, -, hfrom⟩ := h.exists_parts hs.inside
  rw [hs.body_second, Option.some.injEq] at hfrom
  obtain ⟨kept, hkept, hsub⟩ := carry_eq (openTemps (.marker at_ :: post)) [] pre.reverse
  rw [List.append_nil] at hkept
  rw [List.reverse_reverse] at hsub
  exact h.lawful.branchTarget?_behind hcut hsub (by rw [hfrom, ← hkept])

/-- The second half computes the target of its branch as the block does. -/
theorem Halves.definition?_second (hs : b.Halves at_ first second) (h : b.Sound) {t : Temp}
    (ht : b.body.branchTarget? = some (.temp t)) :
    second.body.definition? t = b.body.definition? t := by
  obtain ⟨pre, post, hcut, -, hfrom⟩ := h.exists_parts hs.inside
  rw [hs.body_second, Option.some.injEq] at hfrom
  obtain ⟨kept, hkept, hsub⟩ := carry_eq (openTemps (.marker at_ :: post)) [] pre.reverse
  rw [List.append_nil] at hkept
  rw [List.reverse_reverse] at hsub
  have hlaw : second.body.Lawful second.address second.size := check_iff_lawful.mp hs.checked_second
  -- The half defines the temporary, with an instruction of the block.
  obtain ⟨i, hi⟩ := hlaw.exists_definition ((hs.branchTarget?_second h).trans ht)
  obtain ⟨hmem, hdef⟩ := hlaw.definition?_eq_some.mp hi
  rw [hi, eq_comm]
  refine h.lawful.definition?_eq_some.mpr ⟨?_, hdef⟩
  rw [hfrom, hkept] at hmem
  rw [hcut]
  simp only [List.mem_cons, List.mem_append] at hmem ⊢
  rcases hmem with hmem | hmem | hmem
  · exact Or.inr (Or.inl hmem)
  · exact Or.inl (hsub.subset hmem)
  · exact Or.inr (Or.inr hmem)

end Block

end FlowRecovery
