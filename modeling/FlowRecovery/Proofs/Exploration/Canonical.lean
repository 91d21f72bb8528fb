/-
The blocks of an explored program are canonical.

Repair discards code: a unit may be cut where another starts, and what replaces the
rest may be shorter than the rest was.  Still, which blocks a finished exploration
has depends only on what was explored.  A block is traced if its boundaries are the
instructions that are decoded from its start on, and if it stops only where a unit
ends or at an address that is known.

* `traced_lasting` — units are lifted to traced blocks, and splits at known addresses
  keep blocks traced;
* `not_explored_of_boundary` — so a block has no explored address inside;
* `boundary_of_unitInsns` — and no decoded instruction is lost: where a block stops
  short of the unit that starts with it, lifting there reads the rest of the unit.
-/
import FlowRecovery.Proofs.Exploration.Closed
import FlowRecovery.Proofs.X86.Trace

namespace FlowRecovery

namespace X86

/-- The last of the instructions ends a unit. -/
def Ends (l : List (Addr × Insn)) : Prop := ∃ p, l.getLast? = some p ∧ p.2.endsUnit = true

theorem OnlyLastEnds.goesOn {l : List (Addr × Insn)} (hl : OnlyLastEnds l) (hends : ¬ Ends l) :
    ∀ p ∈ l, p.2.endsUnit = false := by
  intro p hp
  obtain ⟨before, after, rfl⟩ := List.append_of_mem hp
  cases after with
  | nil =>
    refine Bool.eq_false_iff.mpr fun hp => hends ⟨p, ?_, hp⟩
    rw [List.getLast?_append, List.getLast?_singleton, Option.some_or]
  | cons q after =>
    have hpair := (List.pairwise_append.mp hl).2.1
    exact (List.pairwise_cons.mp hpair).1 q List.mem_cons_self

/-- A run that goes on is not ended before. -/
theorem OnlyLastEnds.not_ends {l m : List (Addr × Insn)} (hl : OnlyLastEnds (l ++ m))
    (hm : m ≠ []) : ¬ Ends l := by
  rintro ⟨p, hlast, hp⟩
  obtain ⟨q, m, rfl⟩ := List.exists_cons_of_ne_nil hm
  have hgoes := (List.pairwise_append.mp hl).2.2 p (List.mem_of_getLast? hlast) q List.mem_cons_self
  rw [hp] at hgoes
  cases hgoes

theorem inPlace_lift (decode : Decoder) (image : Image) (limit : Nat) :
    LiftFn.InPlace (lift decode image limit) := by
  intro a u h
  obtain ⟨l, -, rfl⟩ := lift_eq_ok.mp h
  rfl

end X86

open X86 Exploration

/-- Control goes on behind a unit that falls through and does not stop. -/
theorem Block.Classified.limit_mem_successors {u : Lifted} {b : Block} (h : Classified u b)
    (hkind : u.kind = .fallthrough) (hhalt : .halt ∉ u.body.insts) :
    u.address + u.size ∈ b.successors := by
  have hbkind : b.kind = .fallthrough := by
    rw [h.kind, hkind]
    rfl
  have hbody := h.body
  rw [hbkind] at hbody
  have hhalts : b.halts = false := by
    rw [h.halts, ← Option.some.inj hbody]
    refine Bool.eq_false_iff.mpr fun hin => hhalt ?_
    exact (Lifted.mem_mark rfl).mp (List.contains_iff_mem.mp hin)
  rw [h.successors, hhalts, hbkind]
  exact AddrSet.mem_insert.mpr (Or.inl rfl)

section Traced

variable {decode : Decoder} {image : Image} {limit : Nat}

variable (decode image limit) in
/-- The block consists of the instructions of a trace, at each of which a unit can be
lifted.  It stops where a unit ends, or at a known address. -/
structure Block.Traced (known : Addr → Prop) (b : Block) (l : List (Addr × Insn))
    (stop : Addr) : Prop where
  trace : Trace decode b.address l stop
  stop_eq : stop.toNat = b.stop
  markers_eq : markers b.body.insts = l.map (·.1)
  liftable : ∀ p ∈ l, ∃ m, unitInsns decode image limit p.1 = .ok m
  ending : Ends l ∨ known stop

/-- The block of a unit is traced, once it is known where it leads. -/
theorem Block.traced_of_lift (hsize : ∀ a i, decode a = some i → 0 < i.size)
    (hsections : image.SectionsApart) {known : Addr → Prop} {a : Addr} {u : Lifted} {b : Block}
    (hu : X86.lift decode image limit a = .ok u) (hb : Block.classify u = .ok b)
    (hnext : ∀ t, t ∈ b.successors ∨ t ∈ b.callTargets → known t) :
    ∃ l stop, b.Traced decode image limit known l stop := by
  obtain ⟨l, hl, rfl⟩ := X86.lift_eq_ok.mp hu
  obtain ⟨htrace, honly, -⟩ := trace_of_unitInsns hl
  have hc := Block.classified_of_classify hb
  have haddress : b.address = a := hc.address
  have hsub : (behind a l - a).toNat = (behind a l).toNat - a.toNat :=
    UInt64.toNat_sub_of_le _ _ (UInt64.le_iff_toNat_le.mpr htrace.le_stop)
  have hlimit : a + (behind a l - a) = behind a l := by
    rw [UInt64.add_comm, UInt64.sub_add_cancel]
  refine ⟨l, behind a l, ?_, ?_, ?_, ?_, ?_⟩
  · rw [haddress]
    exact htrace
  · have hle := htrace.le_stop
    rw [Block.stop, haddress, hc.size]
    show _ = a.toNat + (behind a l - a).toNat
    omega
  · have hpositions := positions_unitOf image.arch a honly
    rw [hc.markers_eq, Lifted.markers_marked (markers_unitOf image.arch a l), hpositions]
    rw [hpositions]
    exact htrace.nodup hsize
  · intro p hp
    obtain ⟨before, after, rfl⟩ := List.append_of_mem hp
    obtain ⟨m, hm, -⟩ := unitInsns_suffix hsize hsections.steady hl
    exact ⟨m, hm⟩
  · by_cases hends : Ends l
    · exact Or.inl hends
    · obtain ⟨hkind, hhalt⟩ := unitOf_of_goesOn image.arch a (honly.goesOn hends)
      have hmem : a + (behind a l - a) ∈ b.successors := hc.limit_mem_successors hkind hhalt
      exact Or.inr (hlimit ▸ hnext _ (Or.inl hmem))

/-- The halves of a traced block are traced: the trace is cut where the block is. -/
theorem Block.Traced.split {known : Addr → Prop} {b first second : Block} {at_ stop : Addr}
    {l : List (Addr × Insn)} (h : b.Traced decode image limit known l stop) (hat : known at_)
    (hs : b.Halves at_ first second) :
    (∃ l stop, first.Traced decode image limit known l stop) ∧
      ∃ l stop, second.Traced decode image limit known l stop := by
  obtain ⟨tail, htail⟩ := Body.markers_of_check hs.checked_second
  have hmarkers := h.markers_eq
  rw [hs.markers_eq] at hmarkers
  obtain ⟨l₁, l₂, rfl, h₁, h₂⟩ := List.map_eq_append_iff.mp hmarkers.symm
  obtain ⟨mid, hfirst, hsecond⟩ := h.trace.split
  -- The second half starts with a marker of its own, so its part of the trace is not empty.
  rw [htail, hs.address_second] at h₂
  obtain ⟨p, l₂, rfl, hp, -⟩ := List.map_eq_cons_iff.mp h₂
  obtain rfl : mid = at_ := hsecond.address_eq.symm.trans hp
  constructor
  · refine ⟨l₁, mid, hs.address_first ▸ hfirst, ?_, h₁.symm, ?_, Or.inr hat⟩
    · rw [Block.stop, hs.address_first]
      exact hs.stop_first.symm
    · exact fun q hq => h.liftable q (List.mem_append_left _ hq)
  · refine ⟨p :: l₂, stop, hs.address_second ▸ hsecond, ?_, ?_, ?_, ?_⟩
    · rw [h.stop_eq, Block.stop, Block.stop, hs.address_second]
      exact hs.stop_second.symm
    · rw [htail, hs.address_second, h₂]
    · exact fun q hq => h.liftable q (List.mem_append_right _ hq)
    · refine h.ending.imp_left ?_
      rintro ⟨q, hq, hends⟩
      rw [List.getLast?_append, List.getLast?_cons, Option.some_or] at hq
      exact ⟨q, by rw [List.getLast?_cons]; exact hq, hends⟩

theorem Block.traced_lasting (hsize : ∀ a i, decode a = some i → 0 < i.size)
    (hsections : image.SectionsApart) :
    Lasting (X86.lift decode image limit)
      fun known b => ∃ l stop, b.Traced decode image limit known l stop := by
  refine ⟨?_, Block.traced_of_lift hsize hsections, ?_⟩
  · rintro known known' b hmono ⟨l, stop, h⟩
    exact ⟨l, stop, h.trace, h.stop_eq, h.markers_eq, h.liftable, h.ending.imp_right (hmono stop)⟩
  · rintro known b at_ first second ⟨l, stop, h⟩ hat hs
    exact h.split hat hs

end Traced

section Explored

variable {decode : Decoder} {image : Image} {limit : Nat} {options : ExploreOptions}
  {entries : List Addr} {e : Exploration}

/-- A block starts at every explored address where a unit can be lifted. -/
theorem start_of_unitInsns
    (h : (explore { lift := X86.lift decode image limit } image options entries).result = .ok e)
    {a : Addr} {l : List (Addr × Insn)} (ha : a ∈ e.explored)
    (hl : unitInsns decode image limit a = .ok l) : ∃ b, e.store.get? a = some b := by
  have hc := consistent_of_explore (X86.inPlace_lift decode image limit) h
  refine Store.contains_iff.mp (Store.mem_starts.mp ((hc.starts a).mpr ⟨ha, fun hd => ?_⟩))
  obtain ⟨fault, hfault⟩ := hc.faulty a hd
  have hok : X86.lift decode image limit a = .ok _ := X86.lift_eq_ok.mpr ⟨l, hl, rfl⟩
  cases hok.symm.trans hfault

/-- Every block of a finished exploration is traced, relative to what was explored. -/
theorem traced_of_explore (hsize : ∀ a i, decode a = some i → 0 < i.size)
    (hsections : image.SectionsApart)
    (h : (explore { lift := X86.lift decode image limit } image options entries).result = .ok e)
    {s : Addr} {b : Block} (hb : e.store.get? s = some b) :
    b.address = s ∧ ∃ l stop, b.Traced decode image limit (· ∈ e.explored) l stop ∧
      l ≠ [] ∧ b.boundaries.keys = l.map (·.1) := by
  have hplace := X86.inPlace_lift decode image limit
  have hsound := (consistent_of_explore hplace h).built.sound
  obtain ⟨l, stop, ht⟩ :=
    explored_of_explore hplace (Block.traced_lasting hsize hsections) h hb
  have hchecked := (hsound.blocks s b hb).checked
  refine ⟨hsound.keyed s b hb, l, stop, ht, ?_, (Body.keys_boundaries hchecked).trans ht.markers_eq⟩
  rintro rfl
  obtain ⟨rest, hrest⟩ := Body.markers_of_check hchecked
  cases hrest.symm.trans ht.markers_eq

/-- No explored address is a boundary inside a block: another block would start there. -/
theorem not_explored_of_boundary (hsize : ∀ a i, decode a = some i → 0 < i.size)
    (h : (explore { lift := X86.lift decode image limit } image options entries).result = .ok e)
    {known : Addr → Prop} {s stop : Addr} {b : Block} {l : List (Addr × Insn)}
    (hb : e.store.get? s = some b) (ht : b.Traced decode image limit known l stop)
    {p : Addr × Insn} (hp : p ∈ l) (hne : p.1 ≠ s) : p.1 ∉ e.explored := by
  intro hexplored
  have hsound := (consistent_of_explore (X86.inPlace_lift decode image limit) h).built.sound
  have hpos : 0 < p.2.size.toNat := UInt64.lt_iff_toNat_lt.mp (hsize _ _ (ht.trace.decode_eq hp))
  obtain ⟨hlow, hhigh⟩ := ht.trace.within hp
  obtain ⟨m, hm⟩ := ht.liftable p hp
  obtain ⟨c, hc⟩ := start_of_unitInsns h hexplored hm
  have hlt : s < p.1 := by
    rw [hsound.keyed s b hb] at hlow
    exact UInt64.lt_iff_toNat_lt.mpr
      (Nat.lt_of_le_of_ne hlow fun heq => hne (UInt64.toNat_inj.mp heq.symm))
  have hstop := hsound.apart s p.1 b hb (Store.contains_iff.mpr ⟨c, hc⟩) hlt
  have := ht.stop_eq
  omega

/-- Every instruction of a unit at an explored address is a boundary of some block. -/
theorem boundary_of_unitInsns (hsize : ∀ a i, decode a = some i → 0 < i.size)
    (hsections : image.SectionsApart)
    (h : (explore { lift := X86.lift decode image limit } image options entries).result = .ok e)
    {a : Addr} {l : List (Addr × Insn)} {n : Nat} {p : Addr × Insn} (ha : a ∈ e.explored)
    (hl : unitInsns decode image limit a = .ok l) (hp : l[n]? = some p) :
    ∃ b ∈ e.store.toList, p.1 ∈ b.boundaries.keys := by
  -- By induction on how far into the unit the instruction is.
  induction n using Nat.strong_induction_on generalizing a l with
  | _ n ih =>
    obtain ⟨b, hb⟩ := start_of_unitInsns h ha hl
    obtain ⟨rfl, m, stop, ht, hm, hkeys⟩ := traced_of_explore hsize hsections h hb
    have hfound : p ∈ m → ∃ b ∈ e.store.toList, p.1 ∈ b.boundaries.keys := by
      intro hpm
      refine ⟨b, AddrMap.mem_values.mpr ⟨_, hb⟩, ?_⟩
      rw [hkeys]
      exact List.mem_map_of_mem hpm
    obtain ⟨htrace, honly, -⟩ := trace_of_unitInsns hl
    rcases htrace.comparable ht.trace with hpre | ⟨rest, rfl⟩
    · exact hfound (hpre.subset (List.mem_of_getElem? hp))
    · by_cases hn : n < m.length
      · rw [List.getElem?_append_left hn] at hp
        exact hfound (List.mem_of_getElem? hp)
      · -- The block stops short of the unit, and its stop was explored.
        rw [List.getElem?_append_right (Nat.le_of_not_lt hn)] at hp
        obtain ⟨q, rest, rfl⟩ := List.exists_cons_of_ne_nil (List.ne_nil_of_mem
          (List.mem_of_getElem? hp))
        have hstop : stop ∈ e.explored :=
          ht.ending.resolve_left (honly.not_ends (List.cons_ne_nil q rest))
        obtain ⟨mid, hmid, hrest⟩ := htrace.split
        obtain rfl := hmid.stop_unique ht.trace
        obtain ⟨l', hl', hpre⟩ := unitInsns_suffix hsize hsections.steady hl
        rw [hrest.address_eq] at hl'
        have hpos : 0 < m.length := List.length_pos_of_ne_nil hm
        refine ih (n - m.length) (by omega) hstop hl' ?_
        obtain ⟨tail, rfl⟩ := hpre
        rw [List.getElem?_append_left (List.getElem?_eq_some_iff.mp hp).1]
        exact hp

/-- **A finished exploration is canonical.**  The boundaries of a block are the
instructions that are decoded one after the other from its start on.  It stops where a
unit ends or at an explored address, and has no explored address inside.  Every
instruction of every unit that was lifted is a boundary of some block. -/
theorem explore_canonical (hsize : ∀ a i, decode a = some i → 0 < i.size)
    (hsections : image.SectionsApart)
    (h : (explore { lift := X86.lift decode image limit } image options entries).result = .ok e) :
    (∀ s b, e.store.get? s = some b → ∃ l stop, Trace decode s l stop ∧ stop.toNat = b.stop ∧
      b.boundaries.keys = l.map (·.1) ∧ (Ends l ∨ stop ∈ e.explored) ∧
      ∀ p ∈ b.boundaries.keys, p ≠ s → p ∉ e.explored) ∧
    ∀ a ∈ e.explored, ∀ l, unitInsns decode image limit a = .ok l →
      ∀ p ∈ l, ∃ b ∈ e.store.toList, p.1 ∈ b.boundaries.keys := by
  constructor
  · intro s b hb
    obtain ⟨rfl, l, stop, ht, -, hkeys⟩ := traced_of_explore hsize hsections h hb
    refine ⟨l, stop, ht.trace, ht.stop_eq, hkeys, ht.ending, ?_⟩
    intro p hp hne
    rw [hkeys] at hp
    obtain ⟨q, hq, rfl⟩ := List.mem_map.mp hp
    exact not_explored_of_boundary hsize h hb ht hq hne
  · intro a ha l hl p hp
    obtain ⟨n, hn⟩ := List.mem_iff_getElem?.mp hp
    exact boundary_of_unitInsns hsize hsections h ha hl hn

end Explored

/-- An instruction of one byte that does nothing. -/
def X86.Insn.nop : Insn := { size := 1, mnemonic := "nop" }

/-- Two instructions that do nothing, and a return behind them. -/
def X86.Decoder.steps : Decoder := fun a =>
  if a = 16 ∨ a = 17 then some .nop
  else if a = 18 then some { size := 1, mnemonic := "ret", returns := true }
  else none

/-- The section that holds them. -/
def Image.steps : Image :=
  { arch := .x86_64
    sections := [{ name := ".text", address := 16, size := 3, executable := true
                   writable := false, data := none }] }

theorem X86.Decoder.size_steps : ∀ a i, Decoder.steps a = some i → 0 < i.size := by
  intro a i h
  unfold Decoder.steps at h
  split at h
  · cases h
    decide
  · split at h
    · cases h
      decide
    · cases h

theorem Image.sectionsApart_steps : Image.steps.SectionsApart := List.pairwise_singleton _ _

theorem explore_steps :
    ∃ e, (explore { lift := X86.lift .steps .steps 2 } .steps {} [16, 17]).result = .ok e ∧
      e.store.addresses = [16, 17, 18] :=
  Checked.map_eq_ok.mp (by decide +kernel)

/-- With at most two instructions in a unit, the unit at 16 is cut at 17, where another
starts; its second instruction is a boundary of the block that starts there. -/
theorem explore_steps_canonical :
    ∃ e b l, (explore { lift := X86.lift .steps .steps 2 } .steps {} [16, 17]).result = .ok e ∧
      16 ∈ e.explored ∧ e.store.get? 16 = some b ∧ (∃ m stop, Trace .steps 16 m stop ∧
        stop.toNat = b.stop ∧ (Ends m ∨ stop ∈ e.explored)) ∧
      unitInsns .steps .steps 2 16 = .ok l ∧ (17, .nop) ∈ l ∧
      ∃ c ∈ e.store.toList, 17 ∈ c.boundaries.keys := by
  obtain ⟨e, he, hstored⟩ := explore_steps
  have hmem : 16 ∈ e.store.starts := by
    show 16 ∈ e.store.addresses
    rw [hstored]
    decide
  obtain ⟨b, hb⟩ := Store.contains_iff.mp (Store.mem_starts.mp hmem)
  have h16 : 16 ∈ e.explored :=
    (((consistent_of_explore (X86.inPlace_lift _ _ _) he).starts 16).mp hmem).1
  have hunit : unitInsns .steps .steps 2 16 = .ok [(16, .nop), (17, .nop)] := by
    decide +kernel
  obtain ⟨hblocks, hcovered⟩ :=
    explore_canonical X86.Decoder.size_steps Image.sectionsApart_steps he
  obtain ⟨m, stop, htrace, hstop, -, hending, -⟩ := hblocks 16 b hb
  exact ⟨e, b, _, he, h16, hb, ⟨m, stop, htrace, hstop, hending⟩, hunit, by simp,
    hcovered 16 h16 _ hunit (17, .nop) (by simp)⟩

end FlowRecovery
