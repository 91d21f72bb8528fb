/-
The code that instructions are lifted to.

An instruction is lifted to a move of the program counter to its own address and
code that only works on data; a halt is the one exception, and it ends its unit.

* `lowered_lower` — the code of one instruction, and that it ends its unit exactly if
  the instruction does;
* `positions_lowerAll`, `markers_lowerAll` — the program counters of a run of
  instructions are their addresses;
* `lowerAll_of_goesOn` — a run that no instruction ends goes on behind it;
* `positions_unitOf`, `unitOf_of_goesOn` — the same of whole units.
-/
import FlowRecovery.Proofs.Body.Markers
import FlowRecovery.X86.Lifter

namespace FlowRecovery

/-- Whether the instruction only works on data: it says no position, transfers no
control and does not stop. -/
def Inst.isData : Inst → Bool
  | .readReg _ _ => true
  | .writeReg _ _ => true
  | .binary _ _ _ _ => true
  | .select _ _ _ _ => true
  | .load _ _ _ => true
  | .store _ _ _ => true
  | .helper _ _ _ => true
  | _ => false

namespace Emit

variable {α β : Type}

/-- All emitted instructions only work on data. -/
def Data (x : Emit α) : Prop := ∀ t, ∀ i ∈ (x t).insts, i.isData = true

theorem Data.pure (a : α) : Data (pure a : Emit α) := fun _ _ h => nomatch h

theorem Data.bind {x : Emit α} {f : α → Emit β} (hx : Data x) (hf : ∀ a, Data (f a)) :
    Data (x >>= f) := by
  intro t i hi
  rcases List.mem_append.mp hi with hi | hi
  · exact hx t i hi
  · exact hf _ _ i hi

theorem Data.map {x : Emit α} (f : α → β) (hx : Data x) : Data (f <$> x) :=
  hx.bind fun a => .pure (f a)

theorem Data.inst {i : Inst} (hi : i.isData = true) : Data (inst i) :=
  fun _ _ h => List.mem_singleton.mp h ▸ hi

theorem Data.define {f : Temp → Inst} (hf : ∀ t, (f t).isData = true) : Data (define f) :=
  fun t _ h => List.mem_singleton.mp h ▸ hf t

theorem Data.readReg (reg : String) : Data (readReg reg) := .define fun _ => rfl

theorem Data.writeReg (reg : String) (value : Operand) : Data (writeReg reg value) := .inst rfl

theorem Data.binary (op : BinOp) (lhs rhs : Operand) : Data (binary op lhs rhs) :=
  .define fun _ => rfl

theorem Data.select (cond ifTrue ifFalse : Operand) : Data (select cond ifTrue ifFalse) :=
  .define fun _ => rfl

theorem Data.load (addr : Operand) (size : UInt8) : Data (load addr size) := .define fun _ => rfl

theorem Data.store (addr value : Operand) (size : UInt8) : Data (store addr value size) := .inst rfl

theorem Data.helper (name : String) (args : List Operand) : Data (helper name args) :=
  .define fun _ => rfl

theorem Data.effect (name : String) (args : List Operand) : Data (effect name args) := .inst rfl

end Emit

namespace X86.Frame

open Emit (Data)

variable (f : Frame)

theorem data_scaled (reg : String) (scale : Word) : Data (scaled reg scale) := by
  refine (Data.readReg reg).bind fun index => ?_
  split
  · exact .binary _ _ _
  · exact .pure _

theorem data_baseAndIndex (base index : Option String) (scale : Word) :
    Data (baseAndIndex base index scale) := by
  unfold baseAndIndex
  split
  · exact .pure _
  · exact (Data.readReg _).map _
  · exact (data_scaled _ _).map _
  · refine (Data.readReg _).bind fun b => (data_scaled _ _).bind fun i => ?_
    exact (Data.binary _ _ _).map _

theorem data_address (base index : Option String) (scale : Word) (disp : Int64) :
    Data (f.address base index scale disp) := by
  unfold address
  split
  · exact .pure _
  · refine (data_baseAndIndex base index scale).bind fun sum => ?_
    split
    · exact .pure _
    · split
      · exact .pure _
      · exact .binary _ _ _

theorem data_read (a : Arg) : Data (f.read a) := by
  unfold read
  split
  · exact .readReg _
  · exact .pure _
  · exact .pure _
  · exact (f.data_address _ _ _ _).bind fun _ => .load _ _

theorem data_readAll (args : List Arg) : Data (f.readAll args) := by
  induction args with
  | nil => exact .pure _
  | cons a args ih => exact (f.data_read a).bind fun _ => ih.bind fun _ => .pure _

theorem data_write (a : Arg) (value : Operand) : Data (f.write a value) := by
  unfold write
  split
  · exact .writeReg _ _
  · exact (f.data_address _ _ _ _).bind fun _ => .store _ _ _
  · exact .pure _

theorem data_push (value : Operand) : Data (f.push value) :=
  (Data.readReg _).bind fun _ => (Data.binary _ _ _).bind fun _ =>
    (Data.store _ _ _).bind fun _ => .writeReg _ _

theorem data_pop (extra : Word) : Data (f.pop extra) :=
  (Data.readReg _).bind fun _ => (Data.load _ _).bind fun _ => (Data.binary _ _ _).bind fun _ =>
    (Data.writeReg _ _).bind fun _ => .pure _

theorem data_operate (name : String) (args : List Arg) : Data (f.operate name args) :=
  (f.data_readAll args).bind fun _ => .effect _ _

theorem data_compute (name : String) (dst : Arg) (args : List Arg) :
    Data (f.compute name dst args) :=
  (f.data_readAll args).bind fun _ => (Data.helper _ _).bind fun _ => f.data_write dst _

theorem data_other (name : String) (args : List Arg) : Data (straight.other f name args) := by
  unfold straight.other
  split
  · split
    · exact f.data_operate _ _
    · exact f.data_compute _ _ _
  · exact f.data_operate _ _

/-- Apart from a halt, code that transfers no control only works on data. -/
theorem data_straight {name : String} (hname : name ≠ "hlt") (args : List Arg) :
    Data (f.straight name args) := by
  unfold straight
  split
  · exact .pure _
  · split
    · exact f.data_operate _ _
    · split
      · split
        · exact (f.data_read _).bind fun _ => f.data_write _ _
        · split
          · split
            · exact (f.data_address _ _ _ _).bind fun _ => f.data_write _ _
            · exact .pure _
          · exact f.data_other _ _
      · split
        · exact (f.data_read _).bind fun _ => f.data_push _
        · split
          · exact (f.data_pop _).bind fun _ => f.data_write _ _
          · exact f.data_other _ _
      · exact f.data_other _ _

theorem data_destination (args : List Arg) : Data (f.destination args) := by
  unfold destination
  split
  · exact f.data_read _
  · exact .pure _

theorem data_returning (direct : Option Word) : Data (f.returning direct) :=
  (f.data_pop _).bind fun _ => .pure _

theorem data_calling (direct : Option Word) (args : List Arg) : Data (f.calling direct args) := by
  unfold calling
  split
  · exact (f.data_push _).bind fun _ => .pure _
  · exact (f.data_destination _).bind fun _ => (f.data_push _).bind fun _ => .pure _

theorem data_jumping (i : Insn) (direct : Option Word) : Data (f.jumping i direct) := by
  unfold jumping
  cases direct with
  | some target =>
    refine (Data.pure _).bind fun taken => ?_
    split
    · exact (Data.helper _ _).bind fun _ => (Data.select _ _ _).bind fun _ => .pure _
    · exact .pure _
  | none =>
    refine (f.data_destination _).bind fun taken => ?_
    split
    · exact (Data.helper _ _).bind fun _ => (Data.select _ _ _).bind fun _ => .pure _
    · exact .pure _

theorem data_repeating (i : Insn) : Data (f.repeating i) :=
  (f.data_operate _ _).bind fun _ => (Data.readReg _).bind fun _ =>
    (Data.helper _ _).bind fun _ => (Data.select _ _ _).bind fun _ => .pure _

/-- Code that moves the program counter to the instruction and then works on data, or
stops, and that ends the unit exactly if the instruction is of a kind that does. -/
structure Lowered (i : Insn) (out : Emitted (Option (BlockKind × Operand))) : Prop where
  insts : ∃ code, out.insts = .setPc f.pc :: code ∧
    ∀ j ∈ code, j.isData = true ∨ j = .halt ∧ i.endsUnit = true
  ends : out.value.isSome = i.endsUnit

theorem Lowered.of_ending {i : Insn} {x : Emit (BlockKind × Operand)} (hx : Data x)
    (hends : i.endsUnit = true) (t : Temp) :
    f.Lowered i ((Emit.begin f.pc >>= fun _ => some <$> x) t) :=
  ⟨⟨_, rfl, fun j hj => Or.inl (hx.map some t j hj)⟩, hends.symm⟩

/-- The code of an instruction. -/
theorem lowered_lower (i : Insn) (t : Temp) : f.Lowered i (f.lower i t) := by
  unfold lower
  by_cases hret : i.returns = true
  · simp only [hret, if_true]
    exact .of_ending f (f.data_returning _) (by simp [Insn.endsUnit, hret]) t
  · by_cases hcall : i.calls = true
    · simp only [hret, hcall, Bool.false_eq_true, if_false, if_true]
      exact .of_ending f (f.data_calling _ _) (by simp [Insn.endsUnit, hcall]) t
    · by_cases hjump : i.jumps = true
      · simp only [hret, hcall, hjump, Bool.false_eq_true, if_false, if_true]
        exact .of_ending f (f.data_jumping _ _) (by simp [Insn.endsUnit, hjump]) t
      · by_cases hrep : i.repeats = true
        · simp only [hret, hcall, hjump, hrep, Bool.false_eq_true, if_false, if_true]
          exact .of_ending f (f.data_repeating _) (by simp [Insn.endsUnit, hrep]) t
        · have hends : i.endsUnit = (i.name == "hlt") := by
            simp [Insn.endsUnit, hret, hcall, hjump, hrep]
          simp only [hret, hcall, hjump, hrep, Bool.false_eq_true, if_false]
          by_cases hname : i.name = "hlt"
          · rw [hname] at hends ⊢
            refine ⟨⟨[.halt], rfl, fun j hj => Or.inr ⟨List.mem_singleton.mp hj, ?_⟩⟩, ?_⟩
            · rw [hends]
              rfl
            · rw [hends]
              rfl
          · refine ⟨⟨_, rfl, fun j hj => Or.inl ?_⟩, ?_⟩
            · exact (f.data_straight hname i.args).bind (fun _ => .pure _) t j hj
            · rw [hends, if_neg hname]
              simp [hname, bind, pure]

end X86.Frame

theorem positions_of_data {insts : List Inst} (h : ∀ i ∈ insts, i.isData = true ∨ i = .halt) :
    positions insts = [] := by
  refine List.filterMap_eq_nil_iff.mpr fun i hi => ?_
  rcases h i hi with hd | rfl
  · cases i <;> first | rfl | cases hd
  · rfl

theorem markers_of_data {insts : List Inst} (h : ∀ i ∈ insts, i.isData = true ∨ i = .halt) :
    markers insts = [] := by
  refine List.filterMap_eq_nil_iff.mpr fun i hi => ?_
  rcases h i hi with hd | rfl
  · cases i <;> first | rfl | cases hd
  · rfl

namespace X86

namespace Frame.Lowered

variable {f : Frame} {i : Insn} {out : Emitted (Option (BlockKind × Operand))}

theorem positions_eq (h : f.Lowered i out) : positions out.insts = [f.pc] := by
  obtain ⟨code, hcode, hdata⟩ := h.insts
  rw [hcode]
  exact congrArg (f.pc :: ·) (positions_of_data fun j hj => (hdata j hj).imp_right And.left)

theorem markers_eq (h : f.Lowered i out) : markers out.insts = [] := by
  obtain ⟨code, hcode, hdata⟩ := h.insts
  rw [hcode]
  exact @markers_of_data code fun j hj => (hdata j hj).imp_right And.left

theorem not_mem_halt (h : f.Lowered i out) (hends : i.endsUnit = false) : .halt ∉ out.insts := by
  obtain ⟨code, hcode, hdata⟩ := h.insts
  rw [hcode]
  intro hmem
  rcases List.mem_cons.mp hmem with heq | hmem
  · cases heq
  · rcases hdata _ hmem with hd | ⟨-, hd⟩
    · cases hd
    · rw [hends] at hd
      cases hd

end Frame.Lowered

/-- Only the last of the instructions may end a unit. -/
def OnlyLastEnds (l : List (Addr × Insn)) : Prop := l.Pairwise fun p _ => p.2.endsUnit = false

theorem behind_cons (a pc : Addr) (i : Insn) (l : List (Addr × Insn)) :
    behind a ((pc, i) :: l) = behind (pc + i.size) l := by
  cases l with
  | nil => rfl
  | cons q l =>
    unfold behind
    rw [List.getLast?_cons_cons]
    cases hl : (q :: l).getLast? with
    | none => exact absurd (List.getLast?_eq_none_iff.mp hl) (List.cons_ne_nil q l)
    | some p => rfl

section Run

variable (arch : Arch) (next pc : Addr) {i : Insn} (l : List (Addr × Insn)) (t : Temp)

/-- The code of a run whose first instruction ends a unit is that of the instruction. -/
theorem lowerAll_cons_of_ends (hends : i.endsUnit = true) :
    (lowerAll arch next ((pc, i) :: l) t).insts =
      (Frame.lower { arch, pc, next := pc + i.size } i t).insts := by
  have hlow := (Frame.lowered_lower { arch, pc, next := pc + i.size } i t).ends
  rw [hends] at hlow
  obtain ⟨ending, hv⟩ := Option.isSome_iff_exists.mp hlow
  simp only [lowerAll, bind, hv]
  exact List.append_nil _

/-- A run whose first instruction ends no unit goes on behind it. -/
theorem lowerAll_cons (hends : i.endsUnit = false) :
    ∃ t', (lowerAll arch next ((pc, i) :: l) t).insts =
        (Frame.lower { arch, pc, next := pc + i.size } i t).insts ++
          (lowerAll arch (pc + i.size) l t').insts ∧
      (lowerAll arch next ((pc, i) :: l) t).value = (lowerAll arch (pc + i.size) l t').value := by
  have hlow := (Frame.lowered_lower { arch, pc, next := pc + i.size } i t).ends
  rw [hends] at hlow
  have hv := Option.isSome_eq_false_iff.mp hlow
  refine ⟨(Frame.lower { arch, pc, next := pc + i.size } i t).nextTemp, ?_, ?_⟩ <;>
    simp only [lowerAll, bind, Option.isNone_iff_eq_none.mp hv]

end Run

/-- The program counters of a run of instructions are their addresses. -/
theorem positions_lowerAll {l : List (Addr × Insn)} (hl : OnlyLastEnds l) (arch : Arch)
    (next : Addr) (t : Temp) : positions (lowerAll arch next l t).insts = l.map (·.1) := by
  induction l generalizing next t with
  | nil => rfl
  | cons p l ih =>
    obtain ⟨pc, i⟩ := p
    obtain ⟨hi, hl⟩ := List.pairwise_cons.mp hl
    have hlow := Frame.lowered_lower { arch, pc, next := pc + i.size } i t
    cases hends : i.endsUnit with
    | true =>
      obtain rfl : l = [] := List.eq_nil_iff_forall_not_mem.mpr fun q hq => by
        have hq := hi q hq
        rw [hends] at hq
        cases hq
      rw [lowerAll_cons_of_ends arch next pc [] t hends, hlow.positions_eq]
      rfl
    | false =>
      obtain ⟨t', hinsts, -⟩ := lowerAll_cons arch next pc l t hends
      rw [hinsts, positions_append, hlow.positions_eq, ih hl]
      rfl

/-- A run of instructions has no markers. -/
theorem markers_lowerAll (arch : Arch) (next : Addr) (l : List (Addr × Insn)) (t : Temp) :
    markers (lowerAll arch next l t).insts = [] := by
  induction l generalizing next t with
  | nil => rfl
  | cons p l ih =>
    obtain ⟨pc, i⟩ := p
    have hlow := Frame.lowered_lower { arch, pc, next := pc + i.size } i t
    cases hends : i.endsUnit with
    | true => rw [lowerAll_cons_of_ends arch next pc l t hends, hlow.markers_eq]
    | false =>
      obtain ⟨t', hinsts, -⟩ := lowerAll_cons arch next pc l t hends
      rw [hinsts, markers_append, hlow.markers_eq, ih]
      rfl

/-- A run that no instruction ends goes on behind it, and does not stop. -/
theorem lowerAll_of_goesOn {l : List (Addr × Insn)} (hl : ∀ p ∈ l, p.2.endsUnit = false)
    (arch : Arch) (next : Addr) (t : Temp) :
    (lowerAll arch next l t).value = (.fallthrough, .pc (behind next l)) ∧
      .halt ∉ (lowerAll arch next l t).insts := by
  induction l generalizing next t with
  | nil => exact ⟨rfl, List.not_mem_nil⟩
  | cons p l ih =>
    obtain ⟨pc, i⟩ := p
    obtain ⟨hi, hl⟩ := List.forall_mem_cons.mp hl
    obtain ⟨t', hinsts, hvalue⟩ := lowerAll_cons arch next pc l t hi
    obtain ⟨hbehind, hhalt⟩ := ih hl (pc + i.size) t'
    refine ⟨?_, ?_⟩
    · rw [hvalue, hbehind, behind_cons]
    · rw [hinsts]
      intro hmem
      rcases List.mem_append.mp hmem with hmem | hmem
      · exact (Frame.lowered_lower { arch, pc, next := pc + i.size } i t).not_mem_halt hi hmem
      · exact hhalt hmem

section Unit

variable (arch : Arch) (a : Addr) {l : List (Addr × Insn)}

theorem insts_unitOf (l : List (Addr × Insn)) : (unitOf arch a l).body.insts =
    (lowerAll arch a l 0).insts ++ [.branch (lowerAll arch a l 0).value.2, .exit] := by
  show (_ ++ []) ++ _ = _
  rw [List.append_nil]
  rfl

/-- The program counters of a unit are the addresses of its instructions. -/
theorem positions_unitOf (hl : OnlyLastEnds l) :
    positions (unitOf arch a l).body.insts = l.map (·.1) := by
  rw [insts_unitOf, positions_append, positions_lowerAll hl]
  exact List.append_nil _

theorem markers_unitOf (l : List (Addr × Insn)) :
    markers (unitOf arch a l).body.insts = [] := by
  rw [insts_unitOf, markers_append, markers_lowerAll]
  rfl

/-- A unit that no instruction ends falls through, and does not stop. -/
theorem unitOf_of_goesOn (hl : ∀ p ∈ l, p.2.endsUnit = false) :
    (unitOf arch a l).kind = .fallthrough ∧ .halt ∉ (unitOf arch a l).body.insts := by
  obtain ⟨hvalue, hhalt⟩ := lowerAll_of_goesOn hl arch a 0
  refine ⟨congrArg Prod.fst hvalue, ?_⟩
  rw [insts_unitOf]
  intro hmem
  rcases List.mem_append.mp hmem with hmem | hmem
  · exact hhalt hmem
  · simp at hmem

end Unit

end X86

end FlowRecovery
