/-
The temporaries of emitted code.

Emitted code is in scope if it reads only temporaries that are known or that it has
defined before, if it numbers its definitions from the first free temporary on, and if
the operands it answers with can be read behind it (`Emit.Scoped`).  Sequences of such
code are such code (`Scoped.bind`), so it is enough to look at one instruction at a time.

* `scoped_lower`, `scoped_lowerAll` — the code of an instruction, and of a run of
  instructions, is in scope, and its answer can be read behind it;
* `Numbered.nodup`, `Numbered.lt` — with room for all of them, definitions that are
  numbered from the start are distinct and below the next free temporary.
-/
import FlowRecovery.Proofs.Body.Checks
import FlowRecovery.Proofs.X86.Code

namespace FlowRecovery

/-- Every temporary among the operands is known. -/
def InScope (known : List Temp) (operands : List Operand) : Prop :=
  ∀ t ∈ operands.filterMap Operand.temp?, t ∈ known

namespace InScope

variable {known known' : List Temp} {o : Operand} {operands : List Operand}

theorem mono (h : InScope known operands) (hk : known ⊆ known') : InScope known' operands :=
  fun t ht => hk (h t ht)

theorem nil : InScope known [] := nofun

theorem of_temp? (h : o.temp? = none) : InScope known [o] := by
  simp [InScope, h]

theorem cons (ho : InScope known [o]) (h : InScope known operands) :
    InScope known (o :: operands) := by
  intro t ht
  rw [← List.singleton_append, List.filterMap_append, List.mem_append] at ht
  exact ht.elim (ho t) (h t)

end InScope

/-- The definitions are numbered from the first free temporary on. -/
def Numbered (first : Temp) (insts : List Inst) (next : Temp) : Prop :=
  ∃ n, definitions insts = (List.range n).map (fun k => first + UInt32.ofNat k) ∧
    next = first + UInt32.ofNat n

namespace Numbered

variable {first mid next : Temp} {l m : List Inst}

theorem nil (h : definitions l = []) : Numbered first l first :=
  ⟨0, h, (UInt32.add_zero first).symm⟩

theorem single (h : definitions l = [first]) : Numbered first l (first + 1) :=
  ⟨1, h.trans (congrArg (· :: []) (UInt32.add_zero first).symm), rfl⟩

theorem append (hl : Numbered first l mid) (hm : Numbered mid m next) :
    Numbered first (l ++ m) next := by
  obtain ⟨p, hl, rfl⟩ := hl
  obtain ⟨q, hm, rfl⟩ := hm
  have hadd : ∀ k, first + UInt32.ofNat p + UInt32.ofNat k = first + UInt32.ofNat (p + k) :=
    fun k => by rw [UInt32.ofNat_add, UInt32.add_assoc]
  refine ⟨p + q, ?_, hadd q⟩
  rw [definitions_append, hl, hm, List.range_add, List.map_append, List.map_map]
  simp only [Function.comp_def, hadd]

/-- With room for all of them, definitions numbered from the start are the numbers below
the next free temporary. -/
theorem toNat_next (h : Numbered 0 l next) (hroom : (definitions l).length < 0x100000000) :
    next.toNat = (definitions l).length ∧
      (definitions l).map UInt32.toNat = List.range (definitions l).length := by
  obtain ⟨n, hdefs, rfl⟩ := h
  have hlen : (definitions l).length = n := by rw [hdefs, List.length_map, List.length_range]
  rw [hlen] at hroom ⊢
  have hnum : ∀ k ≤ n, ((0 : Temp) + UInt32.ofNat k).toNat = k := fun k hk => by
    rw [UInt32.zero_add, UInt32.toNat_ofNat_of_lt' (show k < 0x100000000 by omega)]
  refine ⟨hnum n (Nat.le_refl n), ?_⟩
  rw [hdefs, List.map_map]
  refine (List.map_congr_left fun k hk => ?_).trans (List.map_id _)
  exact hnum k (Nat.le_of_lt (List.mem_range.mp hk))

theorem nodup (h : Numbered 0 l next) (hroom : (definitions l).length < 0x100000000) :
    (definitions l).Nodup := by
  refine List.Nodup.of_map UInt32.toNat ?_
  rw [(h.toNat_next hroom).2]
  exact List.nodup_range

end Numbered

namespace Emit

variable {α β : Type}

/-- Code that reads what is known or defined before, numbers its definitions, and answers
with operands that can be read behind it. -/
structure Scoped (known : List Temp) (x : Emit α) (answer : α → List Operand) : Prop where
  reads : ∀ t, ReadsDefined known (x t).insts
  numbered : ∀ t, Numbered t (x t).insts (x t).nextTemp
  answers : ∀ t, InScope (definitions (x t).insts ++ known) (answer (x t).value)

namespace Scoped

variable {known : List Temp} {x : Emit α} {f : α → Emit β} {answer : α → List Operand}
  {answer' : β → List Operand}

theorem pure {a : α} (h : InScope known (answer a)) : Scoped known (pure a : Emit α) answer :=
  ⟨fun _ => trivial, fun _ => .nil rfl, fun _ => h⟩

theorem bind (hx : Scoped known x answer)
    (hf : ∀ a known', known ⊆ known' → InScope known' (answer a) → Scoped known' (f a) answer') :
    Scoped known (x >>= f) answer' := by
  have hrest := fun t => hf (x t).value _ (List.subset_append_right _ known) (hx.answers t)
  refine ⟨fun t => ?_, fun t => ?_, fun t => ?_⟩
  · exact ReadsDefined.append.mpr ⟨hx.reads t, (hrest t).reads _⟩
  · exact (hx.numbered t).append ((hrest t).numbered _)
  · refine ((hrest t).answers (x t).nextTemp).mono fun u hu => ?_
    show u ∈ definitions ((x t).insts ++ _) ++ known
    simp only [definitions_append, List.mem_append] at hu ⊢
    tauto

/-- What comes next only needs what was known before. -/
theorem andThen {y : Emit β} (hx : Scoped known x answer)
    (hy : ∀ known', known ⊆ known' → Scoped known' y answer') :
    Scoped known (x >>= fun _ => y) answer' :=
  hx.bind fun _ known' hk _ => hy known' hk

theorem map {g : α → β} (hx : Scoped known x answer) (hg : ∀ a, answer' (g a) = answer a) :
    Scoped known (g <$> x) answer' :=
  hx.bind fun a _ _ ha => .pure (by rwa [hg a])

theorem inst {i : Inst} (hdef : i.def? = none) (h : InScope known i.operands) :
    Scoped known (inst i) fun _ => [] := by
  have hdefs : definitions [i] = [] := by rw [definitions_cons, hdef]; rfl
  exact ⟨fun _ => ⟨h, trivial⟩, fun _ => .nil hdefs, fun _ => .nil⟩

theorem define {g : Temp → Inst} (hdef : ∀ t, (g t).def? = some t)
    (h : ∀ t, InScope known (g t).operands) : Scoped known (define g) ([·]) := by
  have hdefs : ∀ t, definitions [g t] = [t] := fun t => by rw [definitions_cons, hdef]; rfl
  refine ⟨fun t => ⟨h t, trivial⟩, fun t => .single (hdefs t), fun t u hu => ?_⟩
  show u ∈ definitions [g t] ++ known
  rw [hdefs]
  exact List.mem_append_left known hu

theorem readReg (reg : String) : Scoped known (readReg reg) ([·]) :=
  .define (fun _ => rfl) fun _ => .nil

theorem writeReg {reg : String} {value : Operand} (h : InScope known [value]) :
    Scoped known (writeReg reg value) fun _ => [] :=
  .inst rfl h

theorem binary {op : BinOp} {lhs rhs : Operand} (hl : InScope known [lhs])
    (hr : InScope known [rhs]) : Scoped known (binary op lhs rhs) ([·]) :=
  .define (fun _ => rfl) fun _ => hl.cons hr

theorem select {cond ifTrue ifFalse : Operand} (hc : InScope known [cond])
    (ht : InScope known [ifTrue]) (hf : InScope known [ifFalse]) :
    Scoped known (select cond ifTrue ifFalse) ([·]) :=
  .define (fun _ => rfl) fun _ => hc.cons (ht.cons hf)

theorem load {addr : Operand} {size : UInt8} (h : InScope known [addr]) :
    Scoped known (load addr size) ([·]) :=
  .define (fun _ => rfl) fun _ => h

theorem store {addr value : Operand} {size : UInt8} (ha : InScope known [addr])
    (hv : InScope known [value]) : Scoped known (store addr value size) fun _ => [] :=
  .inst rfl (ha.cons hv)

theorem helper {name : String} {args : List Operand} (h : InScope known args) :
    Scoped known (helper name args) ([·]) :=
  .define (fun _ => rfl) fun _ => h

theorem effect {name : String} {args : List Operand} (h : InScope known args) :
    Scoped known (effect name args) fun _ => [] :=
  .inst rfl h

end Scoped

end Emit

namespace X86

namespace Frame

open Emit (Scoped)

variable (f : Frame) {known : List Temp}

theorem scoped_scaled (reg : String) (scale : Word) : Scoped known (scaled reg scale) ([·]) := by
  refine (Scoped.readReg reg).bind fun index known' _ hindex => ?_
  split
  · exact .binary hindex (.of_temp? rfl)
  · exact .pure hindex

theorem scoped_baseAndIndex (base index : Option String) (scale : Word) :
    Scoped known (baseAndIndex base index scale) Option.toList := by
  unfold baseAndIndex
  split
  · exact .pure .nil
  · exact (Scoped.readReg _).map fun _ => rfl
  · exact (scoped_scaled _ _).map fun _ => rfl
  · refine (Scoped.readReg _).bind fun base known₁ _ hbase => ?_
    refine (scoped_scaled _ _).bind fun index known₂ hk hindex => ?_
    exact (Scoped.binary (hbase.mono hk) hindex).map fun _ => rfl

theorem scoped_address (base index : Option String) (scale : Word) (disp : Int64) :
    Scoped known (f.address base index scale disp) ([·]) := by
  unfold address
  split
  · exact .pure (.of_temp? rfl)
  · refine (scoped_baseAndIndex base index scale).bind fun sum known' _ hsum => ?_
    split
    · exact .pure (.of_temp? rfl)
    · split
      · exact .pure hsum
      · exact .binary (.of_temp? rfl) hsum

theorem scoped_read (a : Arg) : Scoped known (f.read a) ([·]) := by
  unfold read
  split
  · exact .readReg _
  · exact .pure (.of_temp? rfl)
  · exact .pure (.of_temp? rfl)
  · exact (f.scoped_address _ _ _ _).bind fun _ _ _ haddr => .load haddr

theorem scoped_readAll (args : List Arg) : Scoped known (f.readAll args) id := by
  induction args generalizing known with
  | nil => exact .pure .nil
  | cons a args ih =>
    refine (f.scoped_read a).bind fun value known₁ _ hvalue => ?_
    exact ih.bind fun values known₂ hk hvalues => .pure ((hvalue.mono hk).cons hvalues)

theorem scoped_write (a : Arg) {value : Operand} (h : InScope known [value]) :
    Scoped known (f.write a value) fun _ => [] := by
  unfold write
  split
  · exact .writeReg h
  · exact (f.scoped_address _ _ _ _).bind fun _ _ hk haddr => .store haddr (h.mono hk)
  · exact .pure .nil

theorem scoped_push {value : Operand} (h : InScope known [value]) :
    Scoped known (f.push value) fun _ => [] := by
  refine (Scoped.readReg _).bind fun old known₁ h₁ hold => ?_
  refine (Scoped.binary hold (.of_temp? rfl)).bind fun new known₂ h₂ hnew => ?_
  refine (Scoped.store hnew (h.mono fun t ht => h₂ (h₁ ht))).andThen fun known₃ h₃ => ?_
  exact .writeReg (hnew.mono h₃)

theorem scoped_pop (extra : Word) : Scoped known (f.pop extra) ([·]) := by
  refine (Scoped.readReg _).bind fun old known₁ _ hold => ?_
  refine (Scoped.load hold).bind fun value known₂ h₂ hvalue => ?_
  refine (Scoped.binary (hold.mono h₂) (.of_temp? rfl)).bind fun new known₃ h₃ hnew => ?_
  refine (Scoped.writeReg hnew).andThen fun known₄ h₄ => ?_
  exact .pure (hvalue.mono fun t ht => h₄ (h₃ ht))

theorem scoped_operate (name : String) (args : List Arg) :
    Scoped known (f.operate name args) fun _ => [] :=
  (f.scoped_readAll args).bind fun _ _ _ hvalues => .effect hvalues

theorem scoped_compute (name : String) (dst : Arg) (args : List Arg) :
    Scoped known (f.compute name dst args) fun _ => [] :=
  (f.scoped_readAll args).bind fun _ _ _ hvalues =>
    (Scoped.helper hvalues).bind fun _ _ _ hvalue => f.scoped_write dst hvalue

theorem scoped_other (name : String) (args : List Arg) :
    Scoped known (straight.other f name args) fun _ => [] := by
  unfold straight.other
  split
  · split
    · exact f.scoped_operate _ _
    · exact f.scoped_compute _ _ _
  · exact f.scoped_operate _ _

theorem scoped_straight (name : String) (args : List Arg) :
    Scoped known (f.straight name args) fun _ => [] := by
  unfold straight
  split
  · exact .pure .nil
  · split
    · exact .inst rfl .nil
    · split
      · exact f.scoped_operate _ _
      · split
        · split
          · exact (f.scoped_read _).bind fun _ _ _ hvalue => f.scoped_write _ hvalue
          · split
            · split
              · exact (f.scoped_address _ _ _ _).bind fun _ _ _ haddr => f.scoped_write _ haddr
              · exact .pure .nil
            · exact f.scoped_other _ _
        · split
          · exact (f.scoped_read _).bind fun _ _ _ hvalue => f.scoped_push hvalue
          · split
            · exact (f.scoped_pop _).bind fun _ _ _ hvalue => f.scoped_write _ hvalue
            · exact f.scoped_other _ _
        · exact f.scoped_other _ _

theorem scoped_destination (args : List Arg) : Scoped known (f.destination args) ([·]) := by
  unfold destination
  split
  · exact f.scoped_read _
  · exact .pure (.of_temp? rfl)

theorem scoped_returning (direct : Option Word) :
    Scoped known (f.returning direct) fun e => [e.2] :=
  (f.scoped_pop _).bind fun _ _ _ hvalue => .pure hvalue

theorem scoped_calling (direct : Option Word) (args : List Arg) :
    Scoped known (f.calling direct args) fun e => [e.2] := by
  unfold calling
  split
  · exact (f.scoped_push (.of_temp? rfl)).andThen fun _ _ => .pure (.of_temp? rfl)
  · refine (f.scoped_destination _).bind fun callee known' _ hcallee => ?_
    exact (f.scoped_push (.of_temp? rfl)).andThen fun _ hk => .pure (hcallee.mono hk)

theorem scoped_jumping (i : Insn) (direct : Option Word) :
    Scoped known (f.jumping i direct) fun e => [e.2] := by
  have hrest : ∀ {taken : Operand} {known₁ : List Temp} {kind kind' : BlockKind},
      InScope known₁ [taken] → Scoped known₁ (if i.isConditional = true then do
          let cond ← Emit.helper ("cond_" ++ i.name) []
          let target ← Emit.select cond taken (.pc f.next)
          pure (kind, target)
        else pure (kind', taken)) fun e => [e.2] := by
    intro taken known₁ kind kind' htaken
    split
    · refine (Scoped.helper .nil).bind fun cond known₂ h₂ hcond => ?_
      refine (Scoped.select hcond (htaken.mono h₂) (.of_temp? rfl)).bind fun _ _ _ htarget => ?_
      exact .pure htarget
    · exact .pure htaken
  unfold jumping
  cases direct with
  | some target =>
    have htarget : Scoped known (pure (.pc target) : Emit Operand) ([·]) := .pure (.of_temp? rfl)
    exact htarget.bind fun _ _ _ htaken => hrest htaken
  | none => exact (f.scoped_destination _).bind fun _ _ _ htaken => hrest htaken

theorem scoped_repeating (i : Insn) : Scoped known (f.repeating i) fun e => [e.2] := by
  refine (f.scoped_operate _ _).andThen fun known₁ _ => ?_
  refine (Scoped.readReg _).bind fun count known₂ _ hcount => ?_
  refine (Scoped.helper hcount).bind fun cond known₃ _ hcond => ?_
  refine (Scoped.select hcond (.of_temp? rfl) (.of_temp? rfl)).bind fun target _ _ htarget => ?_
  exact .pure htarget

/-- The code of an instruction is in scope. -/
theorem scoped_lower (i : Insn) :
    Scoped known (f.lower i) fun e => (e.map (·.2)).toList := by
  have hsome : ∀ {known' : List Temp} {x : Emit (BlockKind × Operand)},
      Scoped known' x (fun e => [e.2]) →
        Scoped known' (some <$> x) fun e => (e.map (·.2)).toList :=
    fun hx => hx.map fun _ => rfl
  refine (Scoped.inst rfl .nil).andThen fun known' _ => ?_
  split
  · exact hsome (f.scoped_returning _)
  · split
    · exact hsome (f.scoped_calling _ _)
    · split
      · exact hsome (f.scoped_jumping _ _)
      · split
        · exact hsome (f.scoped_repeating _)
        · refine (f.scoped_straight _ _).andThen fun _ _ => .pure ?_
          split
          · exact .of_temp? rfl
          · exact .nil

end Frame

/-- The code of a run of instructions is in scope. -/
theorem scoped_lowerAll (arch : Arch) (next : Addr) (l : List (Addr × Insn))
    {known : List Temp} : Emit.Scoped known (lowerAll arch next l) fun e => [e.2] := by
  induction l generalizing next known with
  | nil => exact .pure (.of_temp? rfl)
  | cons p l ih =>
    refine (Frame.scoped_lower _ p.2).bind fun ending known' _ hending => ?_
    cases ending with
    | some e => exact .pure hending
    | none => exact ih _

end X86

end FlowRecovery
