/-
Sections and the addresses that they cover.

* `Section.contains_iff`, `Section.offset_of_contains` — the addresses of a section, and how far
  they are from its start;
* `Image.SectionsApart` — no address is covered twice, so the section of an address is found
  (`SectionsApart.sectionAt?_eq`).
-/
import FlowRecovery.Image
import Mathlib.Data.List.Pairwise

namespace FlowRecovery

namespace Section

variable {s : Section} {a : Addr}

theorem contains_iff :
    s.contains a = true ↔ s.address.toNat ≤ a.toNat ∧ a.toNat < s.limit.toNat := by
  simp only [contains, Bool.and_eq_true, decide_eq_true_eq, UInt64.le_iff_toNat_le,
    UInt64.lt_iff_toNat_lt]

/-- The limit of a section may be less than its size says, but never more. -/
theorem toNat_limit_le (s : Section) : s.limit.toNat ≤ s.address.toNat + s.size.toNat := by
  rw [limit, toNat_saturatingAdd]
  exact Nat.min_le_left _ _

theorem offset_of_contains (h : s.contains a = true) :
    a - s.address < s.size ∧ s.address.toNat + (a - s.address).toNat = a.toNat := by
  obtain ⟨hle, hlt⟩ := contains_iff.mp h
  have hlimit := s.toNat_limit_le
  have hsub := UInt64.toNat_sub_of_le a s.address (UInt64.le_iff_toNat_le.mpr hle)
  rw [UInt64.lt_iff_toNat_lt, hsub]
  omega

/-- No address is covered by both sections. -/
def Apart (s t : Section) : Prop := ∀ a, ¬ (s.contains a = true ∧ t.contains a = true)

end Section

/-- No two sections of the image cover the same address. -/
def Image.SectionsApart (image : Image) : Prop := image.sections.Pairwise Section.Apart

theorem Image.contains_of_sectionAt? {image : Image} {s : Section} {a : Addr}
    (h : image.sectionAt? a = some s) : s.contains a = true :=
  List.find?_some (p := fun s : Section => s.contains a) h

/-- If sections are apart, the one that covers an address is found. -/
theorem Image.SectionsApart.sectionAt?_eq {image : Image} {s : Section} {a : Addr}
    (h : image.SectionsApart) (hs : s ∈ image.sections) (ha : s.contains a = true) :
    image.sectionAt? a = some s := by
  cases hfind : image.sectionAt? a with
  | none => exact absurd ha (List.find?_eq_none.mp hfind s hs)
  | some t =>
    have ht : t ∈ image.sections := List.mem_of_find?_eq_some hfind
    have hta : t.contains a = true := Image.contains_of_sectionAt? hfind
    by_cases hne : t = s
    · rw [hne]
    · have hsymm : Std.Symm Section.Apart := ⟨fun s t hst a hts => hst a ⟨hts.2, hts.1⟩⟩
      exact absurd ⟨hta, ha⟩ (List.Pairwise.forall h ht hs hne a)

end FlowRecovery
