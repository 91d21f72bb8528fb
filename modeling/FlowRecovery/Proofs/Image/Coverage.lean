/-
Which addresses are mapped.

Three tests say whether an address belongs to a section: that of the section, which compares with
its limit; that of the global made for it, which compares how far the address is from the start;
and that of a read, which looks for the section first and then for as many bytes.  All of them
are about the addresses from the section's own on, as many as its size says (`Section.span`).

* `GlobalData.contains_iff` — the global covers exactly these;
* `Section.contains_iff_mem_span`, `Image.readsFrom_iff` — the section does not cover the last word
  of the memory, since its limit is a word too, and nothing is read there;
* `Image.mapped_iff` — so the three agree for all sections but those that end behind that word.
-/
import FlowRecovery.Proofs.Image.Strings
import FlowRecovery.Resolution
import Mathlib.Order.CompletePartialOrder
import Mathlib.Order.Interval.Set.Disjoint

namespace FlowRecovery

theorem toNat_maxWord : maxWord.toNat = 0xffffffffffffffff := rfl

namespace Section

variable {s : Section} {a : Addr}

/-- The addresses of the section as numbers: as many as its size says, from its own on. -/
def span (s : Section) : Set Nat := Set.Ico s.address.toNat (s.address.toNat + s.size.toNat)

theorem mem_span {n : Nat} :
    n ∈ s.span ↔ s.address.toNat ≤ n ∧ n < s.address.toNat + s.size.toNat := Iff.rfl

/-- The limit is at most the last word, and that word itself is not covered. -/
theorem contains_iff_mem_span : s.contains a = true ↔ a.toNat ∈ s.span ∧ a ≠ maxWord := by
  have hlast : a ≠ maxWord ↔ a.toNat < 0xffffffffffffffff := by
    have hlt := a.toNat_lt
    rw [Ne, ← UInt64.toNat_inj, toNat_maxWord]
    omega
  rw [contains_iff, mem_span, hlast, limit, toNat_saturatingAdd]
  omega

/-- The last word is an address of the section exactly if the section ends behind it. -/
theorem maxWord_mem_span :
    maxWord.toNat ∈ s.span ↔ 0x10000000000000000 ≤ s.address.toNat + s.size.toNat := by
  have hlt := s.address.toNat_lt
  rw [mem_span, toNat_maxWord]
  omega

end Section

/-- A global covers the addresses that are less than its size behind its start. -/
theorem GlobalData.contains_iff {g : GlobalData} {a : Addr} : g.contains a = true ↔
    g.address.toNat ≤ a.toNat ∧ a.toNat < g.address.toNat + g.size.toNat := by
  simp only [GlobalData.contains, Bool.and_eq_true, decide_eq_true_eq, UInt64.le_iff_toNat_le]
  refine and_congr_right fun hle => ?_
  rw [UInt64.lt_iff_toNat_lt, UInt64.toNat_sub_of_le _ _ (UInt64.le_iff_toNat_le.mpr hle)]
  omega

namespace Image

variable {i : Image} {s : Section} {a : Addr}

/-- The byte at the address can be read, and it is the section's. -/
def ReadsFrom (i : Image) (s : Section) (a : Addr) : Prop :=
  i.sectionAt? a = some s ∧ i.read a 1 = .ok (s.bytesFrom (a - s.address).toNat 1)

/-- Sections with no address in common cover none in common. -/
theorem sectionsApart_of_span
    (h : i.sections.Pairwise fun s t => Disjoint s.span t.span) : i.SectionsApart := by
  refine h.imp ?_
  intro s t hst a
  rintro ⟨hs, ht⟩
  exact Set.disjoint_left.mp hst (Section.contains_iff_mem_span.mp hs).1
    (Section.contains_iff_mem_span.mp ht).1

/-- One byte can be read from a section exactly where the section says that it is. -/
theorem readsFrom_iff (h : i.SectionsApart) (hs : s ∈ i.sections) :
    i.ReadsFrom s a ↔ s.contains a = true := by
  constructor
  · rintro ⟨hfound, -⟩
    exact contains_of_sectionAt? hfound
  · intro ha
    obtain ⟨hle, hlt⟩ := Section.contains_iff.mp ha
    have hread := h.read_eq hs hle hlt (show a.toNat + 1 ≤ s.limit.toNat from hlt)
    rw [UInt64.ofNat_toNat] at hread
    have hoffset : (a - s.address).toNat = a.toNat - s.address.toNat :=
      UInt64.toNat_sub_of_le _ _ (UInt64.le_iff_toNat_le.mpr hle)
    exact ⟨h.sectionAt?_eq hs ha, by rw [hread, hoffset]⟩

/-- **Sections, globals and reads agree on what is mapped, up to the last word.**  Take the
sections of an image, no two of which have an address in common.  The global made for a section
covers the addresses of the section; the section itself covers those but the last word of the
memory, and these are the ones that a byte can be read at.  So the three agree with the
addresses of the section exactly if it does not end behind the last word. -/
theorem mapped_iff (i : Image) (n : Nat) (s : Section)
    (hapart : i.sections.Pairwise fun s t => Disjoint s.span t.span)
    (hs : i.sections[n]? = some s) :
    ∃ g, i.globals[n]? = some g ∧
      (∀ a, g.contains a = true ↔ a.toNat ∈ s.span) ∧
      (∀ a, s.contains a = true ↔ a.toNat ∈ s.span ∧ a ≠ maxWord) ∧
      (∀ a, i.ReadsFrom s a ↔ a.toNat ∈ s.span ∧ a ≠ maxWord) ∧
      ((∀ a, (s.contains a = true ↔ a.toNat ∈ s.span) ∧ (i.ReadsFrom s a ↔ a.toNat ∈ s.span)) ↔
        s.address.toNat + s.size.toNat < 0x10000000000000000) := by
  have hmem : s ∈ i.sections := List.mem_of_getElem? hs
  have hcontains : ∀ a, s.contains a = true ↔ a.toNat ∈ s.span ∧ a ≠ maxWord :=
    fun a => Section.contains_iff_mem_span
  have hreads : ∀ a, i.ReadsFrom s a ↔ a.toNat ∈ s.span ∧ a ≠ maxWord := by
    intro a
    rw [readsFrom_iff (sectionsApart_of_span hapart) hmem, hcontains]
  refine ⟨s.global, ?_, fun a => GlobalData.contains_iff, hcontains, hreads, ?_⟩
  · rw [globals, List.getElem?_map, hs]
    rfl
  · rw [← Nat.not_le, ← Section.maxWord_mem_span]
    constructor
    · -- At the last word the section says no.
      intro hall hlast
      exact ((hcontains maxWord).mp ((hall maxWord).1.mpr hlast)).2 rfl
    · intro hlast a
      have hne : a.toNat ∈ s.span → a ≠ maxWord := by
        rintro ha rfl
        exact hlast ha
      exact ⟨by rw [hcontains, and_iff_left_of_imp hne], by rw [hreads, and_iff_left_of_imp hne]⟩

end Image

/-- Sixteen bytes of data at an address. -/
def Section.sixteen (address : Addr) : Section :=
  { name := ".data", address, size := 16, executable := false, writable := true
    data := some (Array.replicate 16 1) }

namespace Image

/-- The last thirty-two bytes of the memory, as two sections. -/
def atTheEnd : Image :=
  { arch := .x86_64, sections := [.sixteen 0xffffffffffffffe0, .sixteen 0xfffffffffffffff0] }

theorem disjoint_atTheEnd :
    atTheEnd.sections.Pairwise fun s t => Disjoint s.span t.span := by
  refine List.pairwise_pair.mpr (Set.Ico_disjoint_Ico.mpr ?_)
  decide

/-- Of the two sections, all tests agree on the first and do not agree on the second. -/
theorem mapped_iff_atTheEnd :
    atTheEnd.sections.Pairwise (fun s t => Disjoint s.span t.span) ∧
      (∀ a, ((Section.sixteen 0xffffffffffffffe0).contains a = true ↔
          a.toNat ∈ (Section.sixteen 0xffffffffffffffe0).span) ∧
        (atTheEnd.ReadsFrom (.sixteen 0xffffffffffffffe0) a ↔
          a.toNat ∈ (Section.sixteen 0xffffffffffffffe0).span)) ∧
      ¬ ∀ a, ((Section.sixteen 0xfffffffffffffff0).contains a = true ↔
          a.toNat ∈ (Section.sixteen 0xfffffffffffffff0).span) ∧
        (atTheEnd.ReadsFrom (.sixteen 0xfffffffffffffff0) a ↔
          a.toNat ∈ (Section.sixteen 0xfffffffffffffff0).span) := by
  obtain ⟨-, -, -, -, -, hlow⟩ := mapped_iff atTheEnd 0 _ disjoint_atTheEnd rfl
  obtain ⟨-, -, -, -, -, htop⟩ := mapped_iff atTheEnd 1 _ disjoint_atTheEnd rfl
  refine ⟨disjoint_atTheEnd, hlow.mpr (by decide), ?_⟩
  rw [htop]
  decide

/-- The last word of the memory is an address of the second section and lies in its global, but
the section does not cover it and it cannot be read. -/
theorem last_word_unmapped :
    (∀ s ∈ atTheEnd.sections, s.address.toNat + s.size.toNat ≤ 0x10000000000000000) ∧
      atTheEnd.sections.Pairwise (fun s t => Disjoint s.span t.span) ∧
      maxWord.toNat ∈ (Section.sixteen 0xfffffffffffffff0).span ∧
      atTheEnd.globals.map (·.contains maxWord) = [false, true] ∧
      atTheEnd.sections.map (·.contains maxWord) = [false, false] ∧
      atTheEnd.read maxWord 1 = .error (.outOfRange maxWord 1) := by
  refine ⟨?_, disjoint_atTheEnd, ?_, ?_, ?_, ?_⟩
  · decide
  · exact Section.maxWord_mem_span.mpr (by decide)
  · decide
  · decide
  · decide +kernel

end Image

end FlowRecovery
