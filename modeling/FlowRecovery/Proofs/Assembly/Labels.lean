/-
Labels are unambiguous.

The label of a block is made of the block's address, those of the blocks through which
a conditional transfer leaves the function of the address of its source and, for a
known target, that of the target.  Addresses are written in hexadecimal digits, and an
underscore is none: so a label can be taken apart again at its underscores.

* `readOn_toDigits` — digits read back as the number they were written for;
* `blockLabel_inj`, `exitLabel_inj`, `indirectLabel_inj` — labels of one form are
  equal only if they are made of the same addresses;
* `blockLabel_ne_exitLabel` and its like — labels of different forms are different.
-/
import FlowRecovery.Assembly
import Mathlib.Data.List.Basic

namespace FlowRecovery

namespace Text

theorem readOn_append {base n m : Nat} {l cs : List Char} (h : readOn base n l = some m) :
    readOn base n (l ++ cs) = readOn base m cs := by
  induction l generalizing n with
  | nil =>
    cases h
    rfl
  | cons c l ih =>
    rw [readOn] at h
    obtain ⟨d, hd, h⟩ := Option.bind_eq_some_iff.mp h
    rw [List.cons_append, readOn, hd]
    exact ih h

theorem digitValue?_digitChar {d : Nat} (h : d < 16) :
    digitValue? 16 (Nat.digitChar d) = some d := by
  have hall : ∀ d : Fin 16, digitValue? 16 (Nat.digitChar d) = some d.val := by decide
  exact hall ⟨d, h⟩

/-- Hexadecimal digits read back as the number they were written for. -/
theorem readOn_toDigits (n : Nat) : readOn 16 0 (Nat.toDigits 16 n) = some n := by
  induction n using Nat.strongRecOn with
  | _ n ih =>
    by_cases hn : n < 16
    · rw [Nat.toDigits_of_lt_base hn, readOn, digitValue?_digitChar hn]
      simp [readOn]
    · rw [Nat.toDigits_of_base_le (by omega) (by omega), readOn_append (ih (n / 16) (by omega)),
        readOn, digitValue?_digitChar (Nat.mod_lt n (by omega))]
      show some (n / 16 * 16 + n % 16) = some n
      rw [Nat.div_add_mod']

theorem underscore_not_mem_of_readOn {n m : Nat} {l : List Char}
    (h : readOn 16 n l = some m) : '_' ∉ l := by
  induction l generalizing n with
  | nil => exact List.not_mem_nil
  | cons c l ih =>
    rw [readOn] at h
    obtain ⟨d, hd, h⟩ := Option.bind_eq_some_iff.mp h
    refine List.not_mem_cons_of_ne_of_not_mem ?_ (ih h)
    rintro rfl
    have hnone : digitValue? 16 '_' = none := by decide
    rw [hnone] at hd
    cases hd

@[simp] theorem toList_hex (a : Word) : (hex a).toList = Nat.toDigits 16 a.toNat :=
  String.toList_ofList

theorem underscore_not_mem_hex (a : Word) : '_' ∉ (hex a).toList := by
  rw [toList_hex]
  exact underscore_not_mem_of_readOn (readOn_toDigits _)

theorem hex_inj {a b : Word} : hex a = hex b ↔ a = b := by
  refine ⟨fun h => ?_, congrArg hex⟩
  have hread := congrArg (fun s : String => readOn 16 0 s.toList) h
  simp only [toList_hex, readOn_toDigits, Option.some.injEq] at hread
  exact UInt64.toNat_inj.mp hread

end Text

/-- Texts are equal if they are so up to the first underscore and behind it. -/
theorem append_underscore_inj {l m l' m' : List Char} (hl : '_' ∉ l) (hl' : '_' ∉ l')
    (h : l ++ '_' :: m = l' ++ '_' :: m') : l = l' ∧ m = m' := by
  induction l generalizing l' with
  | nil =>
    cases l' with
    | nil => exact ⟨rfl, (List.cons.inj h).2⟩
    | cons c l' => exact absurd (List.cons.inj h).1 fun hc => hl' (hc ▸ List.mem_cons_self)
  | cons c l ih =>
    cases l' with
    | nil => exact absurd (List.cons.inj h).1 fun hc => hl (hc ▸ List.mem_cons_self)
    | cons d l' =>
      obtain ⟨hc, h⟩ := List.cons.inj h
      obtain ⟨rfl, hm⟩ := ih (fun hm => hl (List.mem_cons_of_mem _ hm))
        (fun hm => hl' (List.mem_cons_of_mem _ hm)) h
      exact ⟨by rw [hc], hm⟩

/-- The label of the block through which control leaves for a known target. -/
def exitLabel (source target : Addr) : String :=
  blockLabel source ++ "_exit_" ++ Text.hex target

/-- The label of the block through which control leaves for a target that is not known. -/
def indirectLabel (source : Addr) : String := blockLabel source ++ "_indirect"

theorem blockLabel_inj {a b : Addr} : blockLabel a = blockLabel b ↔ a = b := by
  refine ⟨fun h => Text.hex_inj.mp ?_, congrArg blockLabel⟩
  exact (String.append_right_inj "bb_").mp h

theorem toList_exitLabel (source target : Addr) : (exitLabel source target).toList =
    "bb_".toList ++ ((Text.hex source).toList ++
      '_' :: ("exit_".toList ++ (Text.hex target).toList)) := by
  simp [exitLabel, blockLabel]

theorem toList_indirectLabel (source : Addr) : (indirectLabel source).toList =
    "bb_".toList ++ ((Text.hex source).toList ++ '_' :: "indirect".toList) := by
  simp [indirectLabel, blockLabel]

theorem exitLabel_inj {a t a' t' : Addr} :
    exitLabel a t = exitLabel a' t' ↔ a = a' ∧ t = t' := by
  refine ⟨fun h => ?_, by rintro ⟨rfl, rfl⟩; rfl⟩
  have hlist := congrArg String.toList h
  rw [toList_exitLabel, toList_exitLabel, List.append_cancel_left_eq] at hlist
  obtain ⟨hsource, htarget⟩ := append_underscore_inj (Text.underscore_not_mem_hex a)
    (Text.underscore_not_mem_hex a') hlist
  rw [List.append_cancel_left_eq] at htarget
  exact ⟨Text.hex_inj.mp (String.toList_inj.mp hsource),
    Text.hex_inj.mp (String.toList_inj.mp htarget)⟩

theorem indirectLabel_inj {a a' : Addr} : indirectLabel a = indirectLabel a' ↔ a = a' := by
  refine ⟨fun h => ?_, congrArg indirectLabel⟩
  have hlist := congrArg String.toList h
  rw [toList_indirectLabel, toList_indirectLabel, List.append_cancel_left_eq] at hlist
  exact Text.hex_inj.mp (String.toList_inj.mp (append_underscore_inj
    (Text.underscore_not_mem_hex a) (Text.underscore_not_mem_hex a') hlist).1)

/-- Only the label of a block has but one underscore. -/
theorem blockLabel_ne_of_underscore {a source : Addr} {rest : List Char} {label : String}
    (h : label.toList = "bb_".toList ++ ((Text.hex source).toList ++ '_' :: rest)) :
    blockLabel a ≠ label := by
  rintro rfl
  simp only [blockLabel, String.toList_append, List.append_cancel_left_eq] at h
  exact Text.underscore_not_mem_hex a (h ▸ by simp)

theorem blockLabel_ne_exitLabel (a source target : Addr) :
    blockLabel a ≠ exitLabel source target :=
  blockLabel_ne_of_underscore (toList_exitLabel source target)

theorem blockLabel_ne_indirectLabel (a source : Addr) : blockLabel a ≠ indirectLabel source :=
  blockLabel_ne_of_underscore (toList_indirectLabel source)

theorem exitLabel_ne_indirectLabel (a target source : Addr) :
    exitLabel a target ≠ indirectLabel source := by
  intro h
  have hlist := congrArg String.toList h
  rw [toList_exitLabel, toList_indirectLabel, List.append_cancel_left_eq] at hlist
  have hrest := (append_underscore_inj (Text.underscore_not_mem_hex a)
    (Text.underscore_not_mem_hex source) hlist).2
  -- One goes on with an `e`, the other with an `i`.
  exact absurd (List.cons.inj hrest).1 (by decide)

end FlowRecovery
