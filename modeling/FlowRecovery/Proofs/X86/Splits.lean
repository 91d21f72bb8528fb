/-
Splitting lifted blocks loses and adds nothing.

The code of an x86 instruction reads no temporary of the instructions before it, and the
branch at the end of a unit reads only what the last instruction has defined.  So from
each of its instructions on a unit defines all that it reads (`SelfContained`).  Marking
the instructions, and cutting the code at a marker, keep this; nothing is ever carried
over a cut, and the two halves put together are the block that was split.

* `selfContained_unitOf` — units are self-contained at their instructions;
* `Block.SelfContained.of_classify`, `Block.SelfContained.splitStable` — so are their
  blocks, and the halves of such blocks;
* `split_lossless` — whatever a lifted block has been split into can be split further
  without any loss.
-/
import FlowRecovery.Proofs.X86.Suffix

namespace FlowRecovery

open Body (rawEnd)

/-- From each instruction that passes the test on, the code defines all that it reads. -/
def SelfContained (starts : Inst → Bool) : List Inst → Prop
  | [] => True
  | i :: rest => (starts i = true → ReadsDefined [] (i :: rest)) ∧ SelfContained starts rest

namespace SelfContained

variable {starts : Inst → Bool} {l m e e' : List Inst}

/-- Code in which nothing starts does not count. -/
theorem append_of_inner (hl : ∀ i ∈ l, starts i = false) :
    SelfContained starts (l ++ m) ↔ SelfContained starts m := by
  induction l with
  | nil => rfl
  | cons i l ih =>
    obtain ⟨hi, hl⟩ := List.forall_mem_cons.mp hl
    rw [List.cons_append, SelfContained, ih hl, hi]
    exact and_iff_right nofun

theorem of_inner (hl : ∀ i ∈ l, starts i = false) : SelfContained starts l := by
  rw [← List.append_nil l]
  exact (append_of_inner hl).mpr trivial

theorem right (h : SelfContained starts (l ++ m)) : SelfContained starts m := by
  induction l with
  | nil => exact h
  | cons i l ih => exact ih h.2

theorem readsDefined {i : Inst} (h : SelfContained starts (l ++ i :: m)) (hi : starts i = true) :
    ReadsDefined [] (i :: m) :=
  h.right.1 hi

/-- The end of the code may be exchanged for one that reads no more and starts nothing. -/
theorem exchange (h : SelfContained starts (l ++ e)) (he' : ∀ i ∈ e', starts i = false)
    (hreads : ∀ known, ReadsDefined known e → ReadsDefined known e') :
    SelfContained starts (l ++ e') := by
  induction l with
  | nil => exact of_inner he'
  | cons i l ih =>
    refine ⟨fun hi => ?_, ih h.2⟩
    obtain ⟨hl, he⟩ := ReadsDefined.append (l := i :: l).mp (h.1 hi)
    exact ReadsDefined.append (l := i :: l).mpr ⟨hl, hreads _ he⟩

end SelfContained

/-! ### Units -/

namespace X86

theorem isSetPc_of_lowered {j : Inst} {ends : Bool}
    (hj : j.isData = true ∨ j = .halt ∧ ends = true) : Lifted.isSetPc j = false := by
  rcases hj with hdata | ⟨rfl, -⟩
  · cases j <;> first | rfl | cases hdata
  · rfl

/-- A run of instructions with its branch is self-contained at each of them. -/
theorem selfContained_lowerAll (arch : Arch) (next : Addr) (l : List (Addr × Insn)) (t : Temp) :
    SelfContained Lifted.isSetPc ((lowerAll arch next l t).insts ++
      rawEnd (some (lowerAll arch next l t).value.2)) := by
  have hend : ∀ o : Operand, ∀ i ∈ rawEnd (some o), Lifted.isSetPc i = false := by
    intro o i hi
    rcases List.mem_pair.mp hi with rfl | rfl <;> rfl
  induction l generalizing next t with
  | nil => exact .of_inner (hend _)
  | cons p l ih =>
    obtain ⟨pc, i⟩ := p
    have hscoped : Emit.Scoped [] (lowerAll arch next ((pc, i) :: l)) fun e => [e.2] :=
      scoped_lowerAll arch next _
    have hreads : ReadsDefined [] ((lowerAll arch next ((pc, i) :: l) t).insts ++
        rawEnd (some (lowerAll arch next ((pc, i) :: l) t).value.2)) :=
      ReadsDefined.append.mpr ⟨hscoped.reads t, hscoped.answers t, nofun, trivial⟩
    obtain ⟨code, hcode, hinner⟩ :=
      (Frame.lowered_lower { arch, pc, next := pc + i.size } i t).insts
    have hinner : ∀ j ∈ code, Lifted.isSetPc j = false := fun j hj =>
      isSetPc_of_lowered (hinner j hj)
    cases hends : i.endsUnit with
    | true =>
      rw [lowerAll_cons_of_ends arch next pc l t hends, hcode] at hreads ⊢
      exact ⟨fun _ => hreads, (SelfContained.append_of_inner hinner).mpr (.of_inner (hend _))⟩
    | false =>
      obtain ⟨t', hinsts, hvalue⟩ := lowerAll_cons arch next pc l t hends
      rw [hinsts, hvalue, hcode, List.append_assoc] at hreads ⊢
      exact ⟨fun _ => hreads, (SelfContained.append_of_inner hinner).mpr (ih _ t')⟩

theorem selfContained_unitOf (arch : Arch) (a : Addr) (l : List (Addr × Insn)) :
    SelfContained Lifted.isSetPc (unitOf arch a l).body.insts := by
  rw [insts_unitOf]
  exact selfContained_lowerAll arch a l 0

end X86

/-! ### Blocks -/

/-- Whether a machine instruction begins here. -/
def Inst.isMarker (i : Inst) : Bool := i.marker?.isSome

/-- Marks stand where a machine instruction begins. -/
theorem SelfContained.mark {insts : List Inst} (h : SelfContained Lifted.isSetPc insts)
    (hunmarked : markers insts = []) (seen : AddrSet) :
    SelfContained Inst.isMarker (Lifted.mark seen insts) := by
  induction insts generalizing seen with
  | nil => trivial
  | cons i insts ih =>
    cases i with
    | setPc pc =>
      rw [Lifted.mark]
      split
      · refine ⟨?_, ih h.2 hunmarked _⟩
        intro hmarker
        cases hmarker
      · have hreads : ReadsDefined [] (.setPc pc :: Lifted.mark (seen.insert pc) insts) :=
          ⟨(h.1 rfl).1, Lifted.readsDefined_mark (h.1 rfl).2⟩
        refine ⟨fun _ => ⟨List.forall_mem_nil _, hreads⟩, ?_, ih h.2 hunmarked _⟩
        intro hmarker
        cases hmarker
    | marker pc => cases hunmarked
    | _ =>
      refine ⟨?_, ih h.2 hunmarked _⟩
      intro hmarker
      cases hmarker

namespace Block

/-- From each of its markers on, the code of the block defines all that it reads. -/
def SelfContained (b : Block) : Prop := FlowRecovery.SelfContained Inst.isMarker b.body.insts

namespace SelfContained

variable {b first second : Block} {at_ : Addr}

/-- The block of a unit that is self-contained at its instructions. -/
theorem of_classify {u : Lifted} {code : List Inst} {target : Operand} (hb : classify u = .ok b)
    (hcode : u.body.insts = code ++ rawEnd (some target)) (hunmarked : markers u.body.insts = [])
    (hu : FlowRecovery.SelfContained Lifted.isSetPc u.body.insts) : b.SelfContained := by
  have hc := classified_of_classify hb
  have hmarked : u.marked.insts = Lifted.mark ∅ code ++ rawEnd (some target) := by
    rw [Lifted.marked, hcode, Lifted.mark_append_rawEnd]
  have hself := hu.mark hunmarked ∅
  rw [hcode, Lifted.mark_append_rawEnd] at hself
  have hbody := hc.body
  rw [Lifted.markTransfer_rawEnd b.kind hmarked, Option.some.injEq] at hbody
  rw [SelfContained, ← hbody]
  -- The marker that stands for the raw branch reads what the branch reads.
  unfold Lifted.ending Lifted.transferMarker
  split
  · split
    · refine hself.exchange (fun i hi => ?_) fun known h => h
      rcases List.mem_pair.mp hi with rfl | rfl <;> rfl
    · refine hself.exchange (fun i hi => ?_) fun known h => ?_
      · rcases List.mem_pair.mp hi with rfl | rfl <;> rfl
      · refine ⟨fun t ht => h.1 t ?_, h.2⟩
        cases target <;> exact ht
  · exact hself

/-- A sound block that is self-contained is cut as it stands. -/
theorem exists_parts (h : b.SelfContained) (hb : b.Sound)
    (hin : b.boundaries.contains at_ = true) :
    ∃ pre post, b.body.insts = pre ++ .marker at_ :: post ∧
      b.body.cutBefore? at_ = some { b.body with insts := pre ++ rawEnd (some (.pc at_)) } ∧
      b.body.cutFrom? at_ = some { b.body with insts := .marker at_ :: post } := by
  obtain ⟨pre, post, hcut, hbefore, hfrom⟩ := hb.exists_parts hin
  have hself : FlowRecovery.SelfContained Inst.isMarker (pre ++ .marker at_ :: post) := hcut ▸ h
  rw [Body.openTemps_eq_nil (hself.readsDefined rfl), Body.carry_nil, List.nil_append] at hfrom
  exact ⟨pre, post, hcut, hbefore, hfrom⟩

theorem insts_halves (h : b.SelfContained) (hb : b.Sound) (hs : b.Halves at_ first second) :
    ∃ code, first.body.insts = code ++ rawEnd (some (.pc at_)) ∧
      code ++ second.body.insts = b.body.insts := by
  obtain ⟨pre, post, hcut, hbefore, hfrom⟩ := h.exists_parts hb hs.inside
  have hfirst := Option.some.inj (hs.body_first.symm.trans hbefore)
  have hsecond := Option.some.inj (hs.body_second.symm.trans hfrom)
  exact ⟨pre, by rw [hfirst], by rw [hsecond, hcut]⟩

/-- The halves of a sound block that is self-contained are so, too. -/
theorem splitStable : Store.SplitStable (fun _ => True) fun b => b.Sound ∧ b.SelfContained := by
  intro b at_ first second hb hat hs
  obtain ⟨hfirst, hsecond⟩ := Sound.splitStable hb.1 hat hs
  obtain ⟨code, hcode, hparts⟩ := hb.2.insts_halves hb.1 hs
  have hself : FlowRecovery.SelfContained Inst.isMarker (code ++ second.body.insts) :=
    hparts ▸ hb.2
  refine ⟨⟨hfirst, ?_⟩, hsecond, hself.right⟩
  rw [SelfContained, hcode]
  refine hself.exchange (fun i hi => ?_) fun known _ => ⟨nofun, nofun, trivial⟩
  rcases List.mem_pair.mp hi with rfl | rfl <;> rfl

end SelfContained

end Block

namespace X86

variable {decode : Decoder} {image : Image} {limit : Nat} {a at_ : Addr} {u : Lifted}
  {b c : Block}

/-- The block of a lifted unit is sound and self-contained. -/
theorem selfContained_of_lift (hu : lift decode image limit a = .ok u)
    (hb : Block.classify u = .ok b) : b.Sound ∧ b.SelfContained := by
  obtain ⟨l, -, rfl⟩ := lift_eq_ok.mp hu
  refine ⟨.of_classified (Block.classified_of_classify hb), ?_⟩
  exact .of_classify hb (insts_unitOf _ _ _) (markers_unitOf _ _ _) (selfContained_unitOf _ _ _)

/-- **Splitting a lifted block is lossless.**  Whatever the block of a lifted unit has been
split into can be split at each instruction boundary but its start.  The code of the first
half without its branch to the cut, and then the code of the second half, is the code that
was split: nothing is carried over. -/
theorem split_lossless (hu : lift decode image limit a = .ok u) (hb : Block.classify u = .ok b)
    (hc : b.Part c) (hin : c.boundaries.contains at_ = true) (hne : at_ ≠ c.address) :
    ∃ first second code, c.split at_ = .ok (first, second) ∧
      first.body.insts = code ++ [.branch (.pc at_), .exit] ∧
      code ++ second.body.insts = c.body.insts := by
  obtain ⟨hsound, hself⟩ :=
    hc.inherits Block.SelfContained.splitStable (selfContained_of_lift hu hb)
  obtain ⟨⟨first, second⟩, hsplit⟩ := hsound.split_of_boundary hin hne
  obtain ⟨code, hfirst, hparts⟩ := hself.insts_halves hsound (Block.halves_of_split hsplit)
  exact ⟨first, second, code, hsplit, hfirst, hparts⟩

/-- Two pushes and a conditional jump back to the first. -/
def Decoder.morePushes : Decoder := fun a =>
  if a = 16 ∨ a = 17 then some .pushRax else if a = 18 then some .jumpBack else none

/-- An image with room for them. -/
def roomyImage : Image :=
  { arch := .x86_64
    sections := [{ name := ".text", address := 16, size := 4, executable := true
                   writable := false, data := none }] }

/-- The loop is split before the jump, and its first half between the pushes. -/
theorem split_lossless_pushes :
    ∃ u b c d first second code, lift .morePushes roomyImage 3 16 = .ok u ∧
      Block.classify u = .ok b ∧ b.split 18 = .ok (c, d) ∧ c.split 17 = .ok (first, second) ∧
      first.body.insts = code ++ [.branch (.pc 17), .exit] ∧
      code ++ second.body.insts = c.body.insts := by
  have hread : unitInsns .morePushes roomyImage 3 16
      = .ok [(16, .pushRax), (17, .pushRax), (18, .jumpBack)] := by decide +kernel
  have hu := lift_eq_ok.mpr ⟨_, hread, rfl⟩
  have hcut : (Block.classify (unitOf .x86_64 16
        [(16, .pushRax), (17, .pushRax), (18, .jumpBack)]) >>= (·.split 18)).map
      (fun halves => (halves.1.boundaries.contains 17, halves.1.address)) = .ok (true, 16) := by
    decide +kernel
  obtain ⟨⟨c, d⟩, hcut, hfirst⟩ := Checked.map_eq_ok.mp hcut
  obtain ⟨b, hb, hs⟩ := Checked.bind_eq_ok.mp hcut
  obtain ⟨hin, hne⟩ := Prod.mk.inj hfirst
  obtain ⟨first, second, code, hsplit, hfirst, hparts⟩ :=
    split_lossless hu hb (.first .whole hs) hin (by rw [hne]; decide)
  exact ⟨_, b, c, d, first, second, code, hu, hb, hs, hsplit, hfirst, hparts⟩

end X86

end FlowRecovery
