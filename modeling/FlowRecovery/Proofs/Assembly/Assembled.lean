/-
Assembled functions are well formed.

The blocks of a function are those of its closure, the entry first.  All of them are
stored, so each has its label in the function, and so has every arm that stays in the
function.

* `contains_of_mem_closure`, `entry_mem_closure` — the closure of an entry holds stored
  blocks only, the one at the entry among them;
* `wellFormed_of_emission` — emitted blocks, with those through which control leaves,
  are a well-formed function;
* `Built.assembles` — with room for its temporaries, a function is assembled exactly if
  there is a block at its entry and none of its blocks lacks a target, and what is
  assembled passes the check of functions.
-/
import FlowRecovery.Proofs.Assembly.Emission

namespace FlowRecovery

/-! ### The blocks of a function -/

namespace Store

variable {s : Store} {entries : AddrSet} {entry : Addr}

theorem mem_closureFrom {members : AddrSet} {queue : List Addr} {a : Addr} (h : a ∈ members) :
    a ∈ s.closureFrom entries entry members queue := by
  fun_induction closureFrom s entries entry members queue with
  | case1 => exact h
  | case2 _ _ _ _ ih => exact ih h
  | case3 _ _ _ _ _ _ ih => exact ih h
  | case4 _ _ _ _ _ _ ih => exact ih (AddrSet.mem_insert.mpr (Or.inr h))

theorem contains_of_mem_closureFrom {members : AddrSet} {queue : List Addr} {a : Addr}
    (h : a ∈ s.closureFrom entries entry members queue)
    (hm : ∀ x ∈ members, s.contains x = true) : s.contains a = true := by
  fun_induction closureFrom s entries entry members queue with
  | case1 => exact hm a h
  | case2 _ _ _ _ ih => exact ih h hm
  | case3 _ _ _ _ _ _ ih => exact ih h hm
  | case4 members x rest b hb _ ih =>
    refine ih h fun y hy => ?_
    rcases AddrSet.mem_insert.mp hy with rfl | hy
    · exact contains_iff.mpr ⟨b, hb⟩
    · exact hm y hy

theorem contains_of_mem_closure {a : Addr} (h : a ∈ s.closure entries entry) :
    s.contains a = true :=
  contains_of_mem_closureFrom h fun x hx => absurd hx (AddrSet.not_mem_empty x)

theorem entry_mem_closure {b : Block} (h : s.get? entry = some b) :
    entry ∈ s.closure entries entry := by
  have hstep : s.closure entries entry = s.closureFrom entries entry
      ((∅ : AddrSet).insert entry)
      ([] ++ s.ahead entries entry ((∅ : AddrSet).insert entry) b) := by
    rw [closure, closureFrom, h]
    exact dif_neg (AddrSet.not_mem_empty entry)
  rw [hstep]
  exact mem_closureFrom (AddrSet.mem_insert.mpr (Or.inl rfl))

theorem not_mem_closure {a : Addr} (h : s.get? entry = none) : a ∉ s.closure entries entry := by
  rw [closure, closureFrom, h, closureFrom]
  exact AddrSet.not_mem_empty a

/-- The blocks of the function that starts at `entry`, in the order of its code. -/
def functionBlocks (s : Store) (entries : AddrSet) (entry : Addr) : List Block :=
  (entry :: (s.closure entries entry).toList.filter (· ≠ entry)).filterMap s.get?

theorem mem_functionBlocks {b : Block} :
    b ∈ s.functionBlocks entries entry ↔
      ∃ a ∈ s.closure entries entry, s.get? a = some b := by
  rw [functionBlocks, List.mem_filterMap]
  constructor
  · rintro ⟨a, ha, hb⟩
    rcases List.mem_cons.mp ha with rfl | ha
    · exact ⟨a, entry_mem_closure hb, hb⟩
    · exact ⟨a, (List.mem_filter.mp ha).1, hb⟩
  · rintro ⟨a, ha, hb⟩
    refine ⟨a, ?_, hb⟩
    by_cases hentry : a = entry
    · exact hentry ▸ List.mem_cons_self
    · exact List.mem_cons_of_mem _ (List.mem_filter.mpr ⟨ha, decide_eq_true hentry⟩)

theorem functionBlocks_eq {b : Block} (h : s.get? entry = some b) :
    s.functionBlocks entries entry = b ::
      ((s.closure entries entry).toList.filter (· ≠ entry)).filterMap s.get? := by
  rw [functionBlocks, List.filterMap_cons_some h]

theorem map_address_filterMap (hs : s.Keyed) {l : List Addr}
    (hl : ∀ a ∈ l, s.contains a = true) : (l.filterMap s.get?).map (·.address) = l := by
  induction l with
  | nil => rfl
  | cons a l ih =>
    obtain ⟨ha, hl⟩ := List.forall_mem_cons.mp hl
    obtain ⟨b, hb⟩ := contains_iff.mp ha
    rw [List.filterMap_cons_some hb, List.map_cons, ih hl, hs a b hb]

/-- The blocks of a function start at different addresses. -/
theorem nodup_functionBlocks (hs : s.Keyed) {b : Block} (h : s.get? entry = some b) :
    ((s.functionBlocks entries entry).map (·.address)).Nodup := by
  have hnodup : (s.closure entries entry).toList.Nodup :=
    (s.closure entries entry).sorted.imp fun hlt heq => UInt64.ne_of_lt hlt heq
  rw [functionBlocks, map_address_filterMap hs]
  · refine List.nodup_cons.mpr ⟨fun hmem => ?_, hnodup.filter _⟩
    exact absurd (List.mem_filter.mp hmem).2 (by simp)
  · refine List.forall_mem_cons.mpr ⟨contains_iff.mpr ⟨b, h⟩, fun a ha => ?_⟩
    exact contains_of_mem_closure (List.mem_filter.mp ha).1

end Store

/-! ### Their code -/

namespace Assembly

variable {members : AddrSet} {blocks : List Block} {codes : List CodeBlock} {last : Assembly}

/-- A block through which control leaves ends a block and defines nothing. -/
theorem LeavesFrom.closing {e : CodeBlock} (h : LeavesFrom blocks codes e) (members : AddrSet)
    (s : Assembly) :
    ∃ source branch, Closing members source branch s e.insts s ∧ definitions e.insts = [] ∧
      ∀ o ∈ branch, ∀ t, o.temp? = some t → t ∈ definitions (codeOf codes) := by
  obtain ⟨b, -, branch, hdep, hreads⟩ := h
  refine ⟨b.address, branch, ?_⟩
  cases hdep with
  | known target => exact ⟨Closing.leave (fun t ht => nomatch ht), rfl, hreads⟩
  | computed h => exact ⟨Closing.leave (fun _ _ => h), rfl, hreads⟩

theorem LeavesFrom.label_ne {e : CodeBlock} (h : LeavesFrom blocks codes e) (a : Addr) :
    blockLabel a ≠ e.label := by
  obtain ⟨b, -, branch, hdep, -⟩ := h
  cases hdep with
  | known target => exact blockLabel_ne_exitLabel a b.address target
  | computed h => exact blockLabel_ne_indirectLabel a b.address

theorem Emission.leavesFrom (h : Emission members {} blocks codes last) :
    ∀ e ∈ last.exits, LeavesFrom blocks codes e := by
  obtain ⟨new, hnew, hall⟩ := h.grows.added
  rw [hnew]
  exact hall

theorem definitions_exits {exits : List CodeBlock}
    (h : ∀ e ∈ exits, LeavesFrom blocks codes e) : definitions (codeOf exits) = [] := by
  refine List.filterMap_eq_nil_iff.mpr fun i hi => ?_
  obtain ⟨e, he, hi⟩ := List.mem_flatMap.mp hi
  obtain ⟨-, -, -, hnil, -⟩ := (h e he).closing ∅ {}
  exact List.filterMap_eq_nil_iff.mp hnil i hi

/-- Labels of blocks and of blocks through which control leaves never clash. -/
theorem Emission.nodup_labels (h : Emission members {} blocks codes last)
    (hnodup : (blocks.map (·.address)).Nodup) :
    (codes.map (·.label) ++ last.exitLabels).Nodup := by
  refine List.nodup_append.mpr ⟨?_, h.grows.nodup List.nodup_nil, ?_⟩
  · have hmap : blocks.map (fun b => blockLabel b.address) =
        (blocks.map (·.address)).map blockLabel := by
      rw [List.map_map]
      rfl
    rw [h.labels, hmap]
    exact hnodup.map fun a b hab => blockLabel_inj.mp hab
  · rintro l hl m hm rfl
    rw [h.labels] at hl
    obtain ⟨b, -, rfl⟩ := List.mem_map.mp hl
    obtain ⟨e, he, hlabel⟩ := List.mem_map.mp hm
    exact (h.leavesFrom e he).label_ne b.address hlabel.symm

/-- Emitted blocks that start at different addresses and cover the members are, with the
blocks through which control leaves, a well-formed function. -/
theorem wellFormed_of_emission (h : Emission members {} blocks codes last) (hne : blocks ≠ [])
    (hnodup : (blocks.map (·.address)).Nodup)
    (hcover : ∀ a ∈ members, ∃ b ∈ blocks, b.address = a) {f : Func}
    (hblocks : f.blocks = codes ++ last.exits) (hnext : f.nextTemp = last.nextTemp) :
    f.WellFormed := by
  have hleaves := h.leavesFrom
  have hlabels : f.labels = codes.map (·.label) ++ last.exitLabels := by
    rw [Func.labels, hblocks, List.map_append]
    rfl
  have hinsts : f.insts = codeOf codes ++ codeOf last.exits := by
    rw [Func.insts, hblocks, List.flatMap_append]
  have hdefs : definitions f.insts = definitions (codeOf codes) := by
    rw [hinsts, definitions_append, definitions_exits hleaves, List.append_nil]
  -- A member has a block, whose label is the function's; so have the exits.
  have htargets : ∀ l, (∃ a ∈ members, l = blockLabel a) ∨ l ∈ last.exitLabels →
      l ∈ f.labels := by
    intro l hl
    rw [hlabels, List.mem_append]
    refine hl.imp_left ?_
    rintro ⟨a, ha, rfl⟩
    obtain ⟨b, hb, rfl⟩ := hcover a ha
    rw [h.labels]
    exact List.mem_map_of_mem hb
  refine ⟨?_, ?_, ?_, ?_, ?_, ?_⟩
  · rw [hblocks]
    intro hnil
    have hcodes : codes.map (·.label) = [] := by rw [(List.append_eq_nil_iff.mp hnil).1]; rfl
    rw [h.labels, List.map_eq_nil_iff] at hcodes
    exact hne hcodes
  · rw [hlabels]
    exact h.nodup_labels hnodup
  · rw [hblocks, List.forall_mem_append]
    constructor
    · intro c hc
      have hmem : ∀ i ∈ c.insts, i ∈ codeOf codes := fun i hi => List.mem_flatMap.mpr ⟨c, hc, hi⟩
      exact ⟨h.ending c hc, fun i hi => h.noRaw i (hmem i hi), fun i hi l hl =>
        htargets l (h.targets i (hmem i hi) l hl)⟩
    · intro e he
      obtain ⟨source, branch, hclosing, -⟩ := (hleaves e he).closing members last
      exact ⟨hclosing.ending, hclosing.noRaw,
        fun i hi l hl => htargets l (hclosing.targets i hi l hl)⟩
  · rw [hdefs]
    exact h.nodup
  · rw [hdefs, hinsts, List.forall_mem_append]
    refine ⟨h.reads, fun i hi t ht => ?_⟩
    obtain ⟨e, he, hi⟩ := List.mem_flatMap.mp hi
    obtain ⟨source, branch, hclosing, hnil, hreads⟩ := (hleaves e he).closing members last
    rcases hclosing.reads i hi t ht with hdef | ⟨o, ho, hot⟩
    · rw [hnil] at hdef
      cases hdef
    · exact hreads o ho t hot
  · rw [hdefs, hnext]
    exact fun t ht => UInt32.lt_iff_toNat_lt.mpr (h.range t ht).2

end Assembly

namespace Store

open Assembly

variable {s : Store} {entries : AddrSet} {entry : Addr} {naming : Naming}

/-- A function is made of the code of its blocks, and then checked. -/
theorem assemble_eq {b : Block} (h : s.get? entry = some b) :
    s.assemble naming entries entry =
      (emitAll entry (s.closure entries entry) {} (s.functionBlocks entries entry) >>= fun r => do
        let func : Func :=
          { name := naming.name entry, address := entry, blocks := r.1 ++ r.2.exits
            nextTemp := r.2.nextTemp }
        Checked.lift (func.verify.mapError .verify)
        return func) := by
  rw [assemble, functionBlocks_eq h]
  simp only [h]

/-- A function that was put together is made of the code of its blocks. -/
theorem exists_of_assemble {f : Func} (h : s.assemble naming entries entry = .ok f) :
    ∃ first codes last, s.get? entry = some first ∧
      emitAll entry (s.closure entries entry) {} (s.functionBlocks entries entry) =
        .ok (codes, last) ∧
      f.blocks = codes ++ last.exits := by
  cases hget : s.get? entry with
  | none =>
    rw [assemble] at h
    simp only [hget] at h
    exact absurd h Checked.refuse_ne_ok
  | some first =>
    rw [assemble_eq hget] at h
    obtain ⟨⟨codes, last⟩, hemit, h⟩ := Checked.bind_eq_ok.mp h
    obtain ⟨-, -, h⟩ := Checked.bind_eq_ok.mp h
    cases h
    exact ⟨first, codes, last, rfl, hemit, rfl⟩

/-- The code of a function whose blocks can be emitted passes the check of functions. -/
theorem Sound.assemble_of_emitAll (hs : s.Sound) {b : Block} (h : s.get? entry = some b)
    {codes : List CodeBlock} {last : Assembly}
    (hemit : emitAll entry (s.closure entries entry) {} (s.functionBlocks entries entry) =
      .ok (codes, last)) :
    ∃ f, s.assemble naming entries entry = .ok f ∧ f.WellFormed ∧
      f.blocks = codes ++ last.exits ∧ f.nextTemp = last.nextTemp ∧
      f.name = naming.name entry ∧ f.address = entry := by
  have hsound : ∀ b ∈ s.functionBlocks entries entry, b.Sound := by
    intro b hb
    obtain ⟨a, -, ha⟩ := mem_functionBlocks.mp hb
    exact hs.blocks a b ha
  have hwell : Func.WellFormed { name := naming.name entry, address := entry
                                 blocks := codes ++ last.exits, nextTemp := last.nextTemp } := by
    refine wellFormed_of_emission (emission_emitAll hsound hemit) ?_
      (nodup_functionBlocks hs.keyed h) (fun a ha => ?_) rfl rfl
    · rw [functionBlocks_eq h]
      exact List.cons_ne_nil _ _
    · obtain ⟨c, hc⟩ := contains_iff.mp (contains_of_mem_closure ha)
      exact ⟨c, mem_functionBlocks.mpr ⟨a, ha, hc⟩, hs.keyed a c hc⟩
  refine ⟨_, ?_, hwell, rfl, rfl, rfl, rfl⟩
  rw [assemble_eq h, hemit]
  exact Checked.bind_eq_ok.mpr ⟨_, rfl, Checked.bind_eq_ok.mpr ⟨(), Checked.lift_eq_ok.mpr
    (Checked.mapError_eq_ok.mpr (Func.verify_eq_ok.mpr hwell)), rfl⟩⟩

/-- An assembled function is well formed, and named after its entry. -/
theorem Sound.of_assemble (hs : s.Sound) {f : Func}
    (h : s.assemble naming entries entry = .ok f) :
    f.WellFormed ∧ f.name = naming.name entry ∧ f.address = entry := by
  obtain ⟨first, codes, last, hget, hemit, -⟩ := exists_of_assemble h
  obtain ⟨f', hf', hwell, -, -, hname, haddress⟩ := hs.assemble_of_emitAll hget hemit
  cases h.symm.trans hf'
  exact ⟨hwell, hname, haddress⟩

/-- How many temporaries the function that starts at `entry` takes up. -/
def demand (s : Store) (entries : AddrSet) (entry : Addr) : Nat :=
  demandOf (s.functionBlocks entries entry)

/-- The three ways in which putting a function together can go. -/
theorem Sound.assemble_cases (hs : s.Sound) (naming : Naming)
    (hroom : s.demand entries entry < 0x100000000) :
    (s.get? entry = none ∧
      s.assemble naming entries entry = .error (.refused (.unknownEntry entry))) ∨
    (∃ b ∈ s.functionBlocks entries entry, b.stuck = true ∧
      s.assemble naming entries entry = .error (.refused (.missingTarget entry b.address))) ∨
    ((∀ b ∈ s.functionBlocks entries entry, b.stuck = false) ∧ s.get? entry ≠ none ∧
      ∃ f, s.assemble naming entries entry = .ok f ∧ f.WellFormed ∧
        f.name = naming.name entry ∧ f.address = entry) := by
  cases hget : s.get? entry with
  | none =>
    refine Or.inl ⟨rfl, ?_⟩
    rw [assemble]
    simp only [hget]
    rfl
  | some first =>
    right
    have hsound : ∀ b ∈ s.functionBlocks entries entry, b.Sound := by
      intro b hb
      obtain ⟨a, -, ha⟩ := mem_functionBlocks.mp hb
      exact hs.blocks a b ha
    obtain ⟨hfail, hok⟩ := emitAll_of_room entry (s.closure entries entry) {} hsound
      (show 0 + s.demand entries entry < _ by omega)
    cases hfind : (s.functionBlocks entries entry).find? Block.stuck with
    | some b =>
      refine Or.inl ⟨b, List.mem_of_find?_eq_some hfind, List.find?_some hfind, ?_⟩
      rw [assemble_eq hget, hfail b hfind]
      rfl
    | none =>
      obtain ⟨⟨codes, last⟩, hemit⟩ := hok hfind
      obtain ⟨f, hf, hwell, -, -, hname, haddress⟩ := hs.assemble_of_emitAll hget hemit
      refine Or.inr ⟨fun b hb => ?_, Option.some_ne_none _, f, hf, hwell, hname, haddress⟩
      simpa using List.find?_eq_none.mp hfind b hb

/-- **Assembly fails only for want of a block or a target.**  With room for the temporaries
of the function, assembly answers that the entry is unknown exactly if no block starts
there, that a target is missing exactly if some block of the function neither halts nor
has the targets its kind asks for, and else a function that passes the check. -/
theorem Built.assembles (hs : s.Built) (naming : Naming) (entries : AddrSet) (entry : Addr)
    (hroom : s.demand entries entry < 0x100000000) :
    (s.assemble naming entries entry = .error (.refused (.unknownEntry entry)) ↔
      s.get? entry = none) ∧
    ((∃ a, s.assemble naming entries entry = .error (.refused (.missingTarget entry a))) ↔
      ∃ a ∈ s.closure entries entry, ∃ b, s.get? a = some b ∧ b.stuck = true) ∧
    (∀ a, s.assemble naming entries entry = .error (.refused (.missingTarget entry a)) →
      a ∈ s.closure entries entry ∧ ∃ b, s.get? a = some b ∧ b.stuck = true) ∧
    ((∃ f, s.assemble naming entries entry = .ok f) ↔ s.get? entry ≠ none ∧
      ∀ a ∈ s.closure entries entry, ∀ b, s.get? a = some b → b.stuck = false) ∧
    ∀ f, s.assemble naming entries entry = .ok f →
      f.verify = .ok () ∧ f.WellFormed ∧ f.name = naming.name entry ∧ f.address = entry := by
  have hsound := hs.sound
  rcases hsound.assemble_cases naming hroom with
    ⟨hnone, heq⟩ | ⟨b, hb, hstuck, heq⟩ | ⟨hall, hsome, f, heq, hwell, hname, haddress⟩
  · have hempty : ∀ a, a ∉ s.closure entries entry := fun a => not_mem_closure hnone
    rw [heq]
    refine ⟨⟨fun _ => hnone, fun _ => rfl⟩, ⟨nofun, ?_⟩, nofun, ⟨nofun, ?_⟩, nofun⟩
    · rintro ⟨a, ha, -⟩
      exact absurd ha (hempty a)
    · rintro ⟨hne, -⟩
      exact absurd hnone hne
  · obtain ⟨a, ha, hget⟩ := mem_functionBlocks.mp hb
    obtain rfl : b.address = a := hsound.keyed a b hget
    have hne : s.get? entry ≠ none := fun hnone => not_mem_closure hnone ha
    rw [heq]
    refine ⟨⟨nofun, fun h => absurd h hne⟩, ⟨fun _ => ⟨_, ha, b, hget, hstuck⟩, fun _ => ⟨_, rfl⟩⟩,
      ?_, ⟨nofun, ?_⟩, nofun⟩
    · intro a' ha'
      cases ha'
      exact ⟨ha, b, hget, hstuck⟩
    · rintro ⟨-, hall⟩
      exact absurd hstuck (by rw [hall _ ha b hget]; exact Bool.false_ne_true)
  · have hclear : ∀ a ∈ s.closure entries entry, ∀ b, s.get? a = some b → b.stuck = false :=
      fun a ha b hb => hall b (mem_functionBlocks.mpr ⟨a, ha, hb⟩)
    rw [heq]
    refine ⟨⟨nofun, fun h => absurd h hsome⟩, ⟨nofun, ?_⟩, nofun,
      ⟨fun _ => ⟨hsome, hclear⟩, fun _ => ⟨f, rfl⟩⟩, ?_⟩
    · rintro ⟨a, ha, b, hb, hstuck⟩
      exact absurd hstuck (by rw [hclear a ha b hb]; exact Bool.false_ne_true)
    · intro g hg
      cases hg
      exact ⟨Func.verify_eq_ok.mpr hwell, hwell, hname, haddress⟩

end Store

/-- A unit that goes back to its start or leaves for another address. -/
def Lifted.loop : Lifted :=
  { address := 16, size := 4, kind := .condJump
    body :=
      { insts := [.setPc 16, .readReg 0 "zf", .select 1 (.temp 0) (.pc 16) (.pc 32),
          .branch (.temp 1), .exit]
        nextTemp := 2 } }

/-- The block of that unit. -/
def Block.loop : Block :=
  { address := 16, size := 4, kind := .condJump, successors := .ofList [16, 20, 32]
    body :=
      { insts := [.marker 16, .setPc 16, .readReg 0 "zf", .select 1 (.temp 0) (.pc 16) (.pc 32),
          .branch (.temp 1), .exit]
        nextTemp := 2 } }

/-- A loop with a way out is assembled, and the way out leads through a block of its own. -/
theorem Store.assembles_loop :
    ∃ (s : Store) (f : Func), Built s ∧ s.demand ∅ 16 = 3 ∧ s.assemble {} ∅ 16 = .ok f ∧
      f.WellFormed ∧ f.labels = ["bb_10", "bb_10_exit_20"] := by
  have hbuilt := Built.empty.insert (show Block.classify .loop = .ok .loop by decide)
  have hdemand : (({} : Store).insert .loop).1.demand ∅ 16 = 3 := by decide +kernel
  have hget : (({} : Store).insert .loop).1.get? 16 = some .loop := by decide +kernel
  have hclosure : ((({} : Store).insert .loop).1.closure ∅ 16).toList = [16] := by decide +kernel
  have hlabels : ((({} : Store).insert .loop).1.assemble {} ∅ 16).map Func.labels =
      .ok ["bb_10", "bb_10_exit_20"] := by decide +kernel
  obtain ⟨-, -, -, hiff, hall⟩ := hbuilt.assembles {} ∅ 16 (by omega)
  obtain ⟨f, hf⟩ := hiff.mpr ⟨by rw [hget]; exact Option.some_ne_none _, fun a ha b hb => by
    rw [← AddrSet.mem_toList, hclosure, List.mem_singleton] at ha
    rw [ha, hget] at hb
    cases hb
    decide⟩
  refine ⟨_, f, hbuilt, hdemand, hf, (hall f hf).2.1, ?_⟩
  rw [hf] at hlabels
  exact Except.ok.inj hlabels

end FlowRecovery
