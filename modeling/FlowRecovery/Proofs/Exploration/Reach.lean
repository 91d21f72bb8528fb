/-
What an exploration reaches.

The addresses that control and calls lead to from the entries are the least set that
holds the entries and, with an address, all that its block leads to.  An exploration
that takes no numbers for code addresses explores exactly this set, in whatever order;
one that does explores it and what is linked to it.

* `LiftFn.Reached`, `isLeast_reached` — the least closed set, by its members;
* `Traced` — every explored address is linked to an entry by addresses of earlier turns;
* `Complete` — what explored blocks lead to is explored or to be explored.
-/
import FlowRecovery.Proofs.Exploration.Closed
import FlowRecovery.Proofs.Exploration.Once

namespace FlowRecovery

namespace LiftFn

variable {lift : LiftFn} {entries : List Addr}

/-- The set holds the entries and, with an address that can be lifted, all that its block
leads to. -/
structure Closed (lift : LiftFn) (entries : List Addr) (S : Set Addr) : Prop where
  entries : ∀ a ∈ entries, a ∈ S
  successors : ∀ a ∈ S, ∀ b, Block.lift lift a = .ok b → ∀ v ∈ b.successors, v ∈ S
  callTargets : ∀ a ∈ S, ∀ b, Block.lift lift a = .ok b → ∀ v ∈ b.callTargets, v ∈ S

/-- Whether control and calls lead to the address from an entry. -/
inductive Reached (lift : LiftFn) (entries : List Addr) : Addr → Prop
  | entry {a : Addr} (ha : a ∈ entries) : Reached lift entries a
  | onward {a v : Addr} {b : Block} (ha : Reached lift entries a)
      (hb : Block.lift lift a = .ok b) (hv : v ∈ b.successors ∨ v ∈ b.callTargets) :
      Reached lift entries v

theorem isLeast_reached (lift : LiftFn) (entries : List Addr) :
    IsLeast { S | Closed lift entries S } { a | Reached lift entries a } := by
  refine ⟨⟨fun a => .entry, fun a ha b hb v hv => ha.onward hb (Or.inl hv),
    fun a ha b hb v hv => ha.onward hb (Or.inr hv)⟩, ?_⟩
  intro S hS a ha
  induction ha with
  | entry ha => exact hS.entries _ ha
  | onward _ hb hv ih =>
    rcases hv with hv | hv
    · exact hS.successors _ ih _ hb _ hv
    · exact hS.callTargets _ ih _ hb _ hv

end LiftFn

namespace Explorer

variable {x : Explorer} {entries : List Addr} {e e' : Exploration}

/-! ### Every explored address is linked to an entry -/

/-- The unit at `a`, which had its turn before `v`, leads to `v`. -/
def Link (x : Explorer) (turns : List Addr) (a v : Addr) : Prop :=
  x.Yields a v ∧ [v, a].Sublist turns

/-- Every address on the worklist is an entry or something that an explored unit leads to,
and every address that had its turn is linked to an entry. -/
structure Traced (x : Explorer) (entries : List Addr) (e : Exploration) : Prop where
  waiting : ∀ w ∈ e.worklist, w ∈ entries ∨ ∃ a ∈ e.turns, x.Yields a w
  linked : ∀ v ∈ e.turns, ∃ a ∈ entries, Relation.ReflTransGen (x.Link e.turns) a v

theorem Traced.initial (x : Explorer) (entries : List Addr) :
    Traced x entries (entries.foldl Exploration.enqueue {}) := by
  have hq := queues_initial entries
  refine ⟨?_, ?_⟩
  · intro w hw
    rcases hq.new w hw with hw | ⟨-, hw⟩
    · exact absurd hw (AddrSet.not_mem_empty w)
    · exact Or.inl hw
  · intro v hv
    rw [hq.turns] at hv
    cases hv

/-- The address of the next turn was waiting, so it is linked to an entry as well. -/
theorem Traced.of_moves {a : Addr} (h : Traced x entries e) (hm : x.Moves a e e') :
    Traced x entries e' := by
  have hmono : ∀ c v, x.Link e.turns c v → x.Link e'.turns c v := by
    intro c v hlink
    rw [hm.turns]
    exact ⟨hlink.1, hlink.2.cons a⟩
  have hold : ∀ v ∈ e.turns, ∃ c ∈ entries, Relation.ReflTransGen (x.Link e'.turns) c v := by
    intro v hv
    obtain ⟨c, hc, hchain⟩ := h.linked v hv
    exact ⟨c, hc, Relation.ReflTransGen.mono hmono _ _ hchain⟩
  refine ⟨?_, ?_⟩
  · intro w hw
    rw [hm.turns]
    rcases hm.new w hw with hw | hyields
    · rcases h.waiting w hw with hw | ⟨c, hc, hyields⟩
      · exact Or.inl hw
      · exact Or.inr ⟨c, List.mem_cons_of_mem a hc, hyields⟩
    · exact Or.inr ⟨a, List.mem_cons_self, hyields⟩
  · intro v hv
    rw [hm.turns] at hv
    rcases List.mem_cons.mp hv with rfl | hv
    · rcases h.waiting v hm.waiting with hentry | ⟨c, hc, hyields⟩
      · exact ⟨v, hentry, .refl⟩
      · -- One more link, from an address that had its turn before.
        obtain ⟨first, hfirst, hchain⟩ := hold c hc
        refine ⟨first, hfirst, hchain.tail ⟨hyields, ?_⟩⟩
        rw [hm.turns]
        exact (List.singleton_sublist.mpr hc).cons_cons v
    · exact hold v hv

/-! ### What explored blocks lead to is known -/

/-- The entries are explored or to be explored, and so is what explored blocks lead to. -/
structure Complete (lift : LiftFn) (entries : List Addr) (e : Exploration) : Prop where
  entries : ∀ a ∈ entries, e.Known a
  onward : ∀ a ∈ e.explored, ∀ b, Block.lift lift a = .ok b →
    ∀ v, v ∈ b.successors ∨ v ∈ b.callTargets → e.Known v

theorem Complete.initial (lift : LiftFn) (entries : List Addr) :
    Complete lift entries (entries.foldl Exploration.enqueue {}) := by
  refine ⟨fun a ha => mem_foldl_enqueue ha {}, ?_⟩
  intro a ha
  rw [(queues_initial entries).explored] at ha
  exact absurd ha (AddrSet.not_mem_empty a)

/-- The turn of an address leaves what its block leads to known. -/
theorem known_of_step {a v : Addr} {b : Block} (hs : x.step e a = .ok e')
    (hb : Block.lift x.lifter a = .ok b) (hv : v ∈ b.successors ∨ v ∈ b.callTargets) :
    e'.Known v := by
  rw [Block.lift] at hb
  rw [step, settle, hb] at hs
  exact (kept_of_keep hs).next v hv

theorem Complete.of_turn (h : Complete x.lifter entries e) (ht : x.Turn e e') :
    Complete x.lifter entries e' := by
  have hkeeps : ∀ v, e.Known v → e'.Known v := fun v hv => hv.of_turn ht
  refine ⟨fun a ha => hkeeps a (h.entries a ha), ?_⟩
  intro a ha b hb v hv
  cases ht with
  | again hp hc => exact hkeeps v (h.onward a ha b hb v hv)
  | take hp hc hs =>
    rw [explored_settle hs] at ha
    rcases AddrSet.mem_insert.mp ha with rfl | ha
    · exact known_of_step hs hb hv
    · exact hkeeps v (h.onward a ha b hb v hv)

/-- Every round keeps an exploration orderly, traced and complete. -/
theorem traced_and_complete_of_turns (ht : x.Turns (entries.foldl Exploration.enqueue {}) e) :
    Orderly e ∧ Traced x entries e ∧ Complete x.lifter entries e := by
  induction ht with
  | refl => exact ⟨.initial entries, .initial x entries, .initial x.lifter entries⟩
  | tail _ hturn ih =>
    obtain ⟨horderly, htraced, hcomplete⟩ := ih
    obtain ⟨a, hmoves⟩ := horderly.moves hturn
    exact ⟨horderly.of_turn hturn, htraced.of_moves hmoves, hcomplete.of_turn hturn⟩

/-! ### The least closed set -/

/-- When nothing is left to explore, the explored addresses are a closed set. -/
theorem Complete.closed {lift : LiftFn} (h : Complete lift entries e) (hempty : e.worklist = ∅) :
    LiftFn.Closed lift entries { a | a ∈ e.explored } := by
  have hexplored : ∀ a, e.Known a → a ∈ e.explored := by
    intro a ha
    refine ha.resolve_right ?_
    rw [hempty]
    exact AddrSet.not_mem_empty a
  exact ⟨fun a ha => hexplored a (h.entries a ha),
    fun a ha b hb v hv => hexplored v (h.onward a ha b hb v (Or.inl hv)),
    fun a ha b hb v hv => hexplored v (h.onward a ha b hb v (Or.inr hv))⟩

/-- Where no numbers are taken for code addresses, links only follow control and calls. -/
theorem reached_of_link (hextract : x.options.extractAddresses = false) {turns : List Addr}
    {a v : Addr} (ha : LiftFn.Reached x.lifter entries a)
    (hchain : Relation.ReflTransGen (x.Link turns) a v) : LiftFn.Reached x.lifter entries v := by
  induction hchain with
  | refl => exact ha
  | tail _ hlink ih =>
    obtain ⟨⟨u, b, hu, hb, hnext⟩, -⟩ := hlink
    have hlift := Block.lift_of_ok hu hb
    rcases hnext with hv | hv | ⟨htrue, -⟩
    · exact ih.onward hlift (Or.inl hv)
    · exact ih.onward hlift (Or.inr hv)
    · rw [hextract] at htrue
      cases htrue

end Explorer

section

variable {lifter : Lifter} {image : Image} {options : ExploreOptions} {entries : List Addr}
  {e : Exploration}

/-- **What an exploration explores.**  Let `least` be the least set that holds the entries
and all that the blocks of its members lead to.  Where no numbers are taken for code
addresses, exactly the members of `least` are explored.  Where they are, all of them are,
and every other explored address is linked to one: each link is a successor, a call target
or a number in a unit that was lifted before, where the number is the address of code and
not of a string. -/
theorem explore_least (h : (explore lifter image options entries).result = .ok e) :
    ∃ least : Set Addr, IsLeast { S | LiftFn.Closed lifter.lift entries S } least ∧
      (options.extractAddresses = false → { a | a ∈ e.explored } = least) ∧
      (options.extractAddresses = true → least ⊆ { a | a ∈ e.explored } ∧
        ∀ v ∈ e.explored, v ∉ least → ∃ a ∈ least, Relation.ReflTransGen
          (Explorer.Link { lifter := lifter.lift, image, options } e.turns) a v) := by
  obtain ⟨hturns, hempty⟩ := Explorer.turns_of_explore h
  obtain ⟨horderly, htraced, hcomplete⟩ := Explorer.traced_and_complete_of_turns hturns
  have hleast := LiftFn.isLeast_reached lifter.lift entries
  have hsubset : { a | LiftFn.Reached lifter.lift entries a } ⊆ { a | a ∈ e.explored } :=
    hleast.2 (hcomplete.closed hempty)
  refine ⟨_, hleast, ?_, ?_⟩
  · intro hextract
    refine Set.Subset.antisymm ?_ hsubset
    intro v hv
    obtain ⟨a, ha, hchain⟩ := htraced.linked v ((horderly.mem_turns v).mpr hv)
    exact Explorer.reached_of_link hextract (.entry ha) hchain
  · intro _
    refine ⟨hsubset, ?_⟩
    intro v hv _
    obtain ⟨a, ha, hchain⟩ := htraced.linked v ((horderly.mem_turns v).mpr hv)
    exact ⟨a, .entry ha, hchain⟩

end

/-- A jump through a number. -/
def Lifted.pointing : Lifted :=
  { address := 16, size := 2, kind := .jumpIndirect
    body := { insts := [.setPc 16, .branch (.const 32), .exit], nextTemp := 0 } }

/-- The block of that unit: control is not known to go anywhere. -/
def Block.pointing : Block :=
  { address := 16, size := 2, kind := .jumpIndirect
    body := { insts := [.marker 16, .setPc 16, .branch (.const 32), .exit], nextTemp := 0 } }

/-- A lifter that knows the jump, and a return where the number points. -/
def LiftFn.pointing : LiftFn := fun a =>
  if a = 16 then .ok .pointing
  else if a = 32 then
    .ok { address := 32, size := 1, kind := .ret
          body := { insts := [.setPc 32, .branch (.const 0), .exit], nextTemp := 0 } }
  else .error (.invalidInstruction a)

/-- The section that holds them. -/
def Image.pointing : Image :=
  { arch := .x86_64
    sections := [{ name := ".text", address := 16, size := 20, executable := true
                   writable := false, data := none }] }

theorem explore_pointing (extractAddresses : Bool) :
    ∃ e, (explore { lift := .pointing } .pointing { extractAddresses } [16]).result = .ok e ∧
      e.explored.toList = if extractAddresses then [16, 32] else [16] := by
  have hrun : (explore { lift := .pointing } .pointing { extractAddresses } [16]).result.map
      (·.explored.toList) = .ok (if extractAddresses then [16, 32] else [16]) := by
    cases extractAddresses <;> decide +kernel
  exact Checked.map_eq_ok.mp hrun

theorem LiftFn.closed_pointing : LiftFn.Closed .pointing [16] {16} := by
  have hlift : Block.lift .pointing 16 = .ok .pointing := by decide
  refine ⟨fun a ha => List.mem_singleton.mp ha, ?_, ?_⟩
  all_goals
    rintro a rfl b hb v hv
    rw [hlift] at hb
    cases hb
    exact absurd hv (AddrSet.not_mem_empty v)

/-- Where numbers are taken for code addresses, one leads from the entry to where no control
leads; where they are not, the entry is all that is explored. -/
theorem explore_pointing_least :
    (∃ e least, (explore { lift := .pointing } .pointing {} [16]).result = .ok e ∧
      IsLeast { S | LiftFn.Closed .pointing [16] S } least ∧ 32 ∈ e.explored ∧ 32 ∉ least ∧
      ∃ a ∈ least, Relation.ReflTransGen (Explorer.Link
        { lifter := .pointing, image := .pointing, options := {} } e.turns) a 32) ∧
    ∃ e, (explore { lift := .pointing } .pointing { extractAddresses := false } [16]).result =
        .ok e ∧
      IsLeast { S | LiftFn.Closed .pointing [16] S } { a | a ∈ e.explored } := by
  refine ⟨?_, ?_⟩
  · obtain ⟨e, he, hexplored⟩ := explore_pointing true
    obtain ⟨least, hleast, -, htrue⟩ := explore_least he
    obtain ⟨-, hlinked⟩ := htrue rfl
    have h32 : 32 ∈ e.explored := by
      rw [AddrSet.mem_def, hexplored]
      decide
    have hnot : (32 : Addr) ∉ least := by
      intro hmem
      exact absurd (hleast.2 LiftFn.closed_pointing hmem) (by decide)
    exact ⟨e, least, he, hleast, h32, hnot, hlinked 32 h32 hnot⟩
  · obtain ⟨e, he, -⟩ := explore_pointing false
    obtain ⟨least, hleast, hfalse, -⟩ := explore_least he
    exact ⟨e, he, hfalse rfl ▸ hleast⟩

end FlowRecovery
