/-
Where the sections of an object come to stand.

`layOut` goes through the section headers and places each loaded section behind the one before.
What it yields is `Placed`: the sections of the loaded headers in their order, with the contents
that the file has for them, each behind the end of those before.  So no two of them cover an
address in common (`Placed.sections_apart`).

* `SectionHeader.alignUp_eq_ok` — rounding up;
* `layOut_cons_eq_ok`, `forall₂_of_layOut` — one section of a layout, and what holds of each;
* `placed_of_layOut`, `onlyOverflows_layOut` — what a layout is, and how it can fail.
-/
import FlowRecovery.Image.Elf.Load
import FlowRecovery.Proofs.Image.Bytes
import FlowRecovery.Proofs.Image.Sections
import FlowRecovery.Proofs.Lists

namespace FlowRecovery

namespace Checked

variable {ε α β : Type}

/-- The computation is never refused: it yields a value or overflows. -/
def OnlyOverflows (x : Checked ε α) : Prop := ∀ e, x = .error e → e = .overflow

theorem OnlyOverflows.ok (a : α) : OnlyOverflows (.ok a : Checked ε α) := nofun

theorem OnlyOverflows.bind {x : Checked ε α} {f : α → Checked ε β} (hx : OnlyOverflows x)
    (hf : ∀ a, x = .ok a → OnlyOverflows (f a)) : OnlyOverflows (x >>= f) := by
  cases x with
  | ok a => exact hf a rfl
  | error e =>
    intro e' he
    obtain rfl : e = e' := Except.error.inj he
    exact hx e rfl

theorem onlyOverflows_checkedAdd (a b : Word) :
    OnlyOverflows (checkedAdd a b : Checked ε Word) := by
  intro e he
  rw [checkedAdd] at he
  split at he
  · cases he
  · exact (Except.error.inj he).symm

/-- A fold whose steps are never refused is not refused either. -/
theorem onlyOverflows_foldlM {f : β → α → Checked ε β} {l : List α}
    (h : ∀ a ∈ l, ∀ b, OnlyOverflows (f b a)) (b : β) : OnlyOverflows (l.foldlM f b) := by
  induction l generalizing b with
  | nil => exact .ok b
  | cons a l ih =>
    rw [List.foldlM_cons]
    refine (h a List.mem_cons_self b).bind ?_
    intro b' _
    exact ih (fun c hc => h c (List.mem_cons_of_mem a hc)) b'

theorem OnlyOverflows.exists_ok {x : Checked ε α} (h : OnlyOverflows x)
    (hne : x ≠ .error .overflow) : ∃ a, x = .ok a := by
  cases x with
  | ok a => exact ⟨a, rfl⟩
  | error e => exact absurd (congrArg Except.error (h e rfl)) hne

end Checked

open Checked (OnlyOverflows)

namespace Elf

variable {names : StringTable} {b : Bytes}

namespace SectionHeader

variable {h : SectionHeader}

/-- The address of a section is the next multiple of its alignment. -/
theorem alignUp_eq_ok {ε : Type} {next a : Addr} (ha : (h.alignUp next : Checked ε Addr) = .ok a) :
    max h.align.toNat 1 ∣ a.toNat ∧ next.toNat ≤ a.toNat ∧
      a.toNat < next.toNat + max h.align.toNat 1 := by
  have hpos : 0 < max h.align.toNat 1 := by omega
  rw [alignUp] at ha
  generalize max h.align.toNat 1 = align at *
  have hdiv := Nat.div_add_mod (next.toNat + align - 1) align
  have hmod := Nat.mod_lt (next.toNat + align - 1) hpos
  rw [Nat.mul_comm] at hdiv
  split at ha
  · next hlt =>
    rw [Except.ok.injEq] at ha
    have hnat : a.toNat = (next.toNat + align - 1) / align * align := by
      rw [← ha, UInt64.toNat_ofNat_of_lt' hlt]
    rw [hnat]
    exact ⟨Nat.dvd_mul_left _ _, by omega, by omega⟩
  · cases ha

/-- The file has the contents of the section, if the section has any. -/
def InFile (h : SectionHeader) (b : Bytes) : Prop :=
  h.type = noBitsType ∨ h.offset.toNat + h.size.toNat ≤ b.size

instance : Decidable (h.InFile b) := inferInstanceAs (Decidable (_ ∨ _))

/-- The contents of a section are the bytes of the file from its offset on. -/
theorem contents_eq_ok {data : Option Bytes} :
    h.contents b = .ok data ↔
      (h.type = noBitsType ∧ data = none) ∨
      (h.type ≠ noBitsType ∧ h.offset.toNat + h.size.toNat ≤ b.size ∧
        data = some (b.extract h.offset.toNat (h.offset.toNat + h.size.toNat))) := by
  rw [contents, fileSlice, Binary.slice?]
  by_cases ht : h.type = noBitsType
  · simp [ht, eq_comm]
  · by_cases hle : h.offset.toNat + h.size.toNat ≤ b.size
    · simp [ht, hle, Except.map, eq_comm]
    · simp [ht, hle, Except.map]

theorem InFile.contents (hf : h.InFile b) : ∃ data, h.contents b = .ok data := by
  by_cases ht : h.type = noBitsType
  · exact ⟨none, contents_eq_ok.mpr (Or.inl ⟨ht, rfl⟩)⟩
  · exact ⟨_, contents_eq_ok.mpr (Or.inr ⟨ht, hf.resolve_left ht, rfl⟩)⟩

/-- The section is the one that the header describes, with the contents that the file has. -/
structure Makes (h : SectionHeader) (names : StringTable) (b : Bytes) (s : Section) : Prop where
  contents : h.contents b = .ok s.data
  eq_section : s = h.section names s.address s.data

/-- The file has as many bytes of a section as the section is large, or none. -/
theorem size_of_contents {bytes : Bytes} (hc : h.contents b = .ok (some bytes)) :
    bytes.size = h.size.toNat := by
  rcases contents_eq_ok.mp hc with ⟨-, hnone⟩ | ⟨-, hle, hsome⟩
  · cases hnone
  · rw [Option.some.inj hsome, Array.size_extract]
    omega

end SectionHeader

/-- What a layout from `next` on is: the loaded sections in order, each behind the end of those
before, and all of them inside the memory and with all their bytes or none. -/
structure Placed (names : StringTable) (b : Bytes) (next : Addr)
    (headers : List (SectionHeader × Nat)) (placed : List (Nat × Section)) : Prop where
  made : List.Forall₂ (fun e p => p.1 = e.2 ∧ e.1.Makes names b p.2)
    (headers.filter (·.1.loaded)) placed
  bounds : ∀ p ∈ placed, next.toNat ≤ p.2.address.toNat ∧ Fits p.2.address p.2.size
  sized : ∀ p ∈ placed, ∀ data, p.2.data = some data → data.size = p.2.size.toNat
  apart : placed.Pairwise fun p q => p.2.address.toNat + p.2.size.toNat ≤ q.2.address.toNat

/-- A layout that succeeds goes past a section that is not loaded, and puts one that is loaded
in front of the others, which follow its end. -/
theorem layOut_cons_eq_ok {next : Addr} {header : SectionHeader} {index : Nat}
    {rest : List (SectionHeader × Nat)} {placed : List (Nat × Section)}
    (h : layOut names b next ((header, index) :: rest) = .ok placed) :
    (header.loaded = true ∧ ∃ address limit data others,
      (header.alignUp next : Checked ImageError Addr) = .ok address ∧
      address.toNat + header.size.toNat = limit.toNat ∧ header.contents b = .ok data ∧
      layOut names b limit rest = .ok others ∧
      placed = (index, header.section names address data) :: others) ∨
    (header.loaded = false ∧ layOut names b next rest = .ok placed) := by
  rw [layOut] at h
  by_cases hl : header.loaded = true
  · rw [if_pos hl] at h
    obtain ⟨address, haddress, h⟩ := Checked.bind_eq_ok.mp h
    obtain ⟨limit, hlimit, h⟩ := Checked.bind_eq_ok.mp h
    obtain ⟨data, hdata, h⟩ := Checked.bind_eq_ok.mp h
    obtain ⟨others, hothers, h⟩ := Checked.bind_eq_ok.mp h
    exact Or.inl ⟨hl, address, limit, data, others, haddress, checkedAdd_eq_ok.mp hlimit,
      Checked.lift_eq_ok.mp hdata, hothers, (Except.ok.inj h).symm⟩
  · rw [if_neg hl] at h
    exact Or.inr ⟨Bool.eq_false_iff.mpr hl, h⟩

/-- What holds of every header and the section that is placed for it holds along a layout. -/
theorem forall₂_of_layOut {P : SectionHeader × Nat → Nat × Section → Prop}
    (hP : ∀ header index next address data, header.loaded = true →
      (header.alignUp next : Checked ImageError Addr) = .ok address →
      header.contents b = .ok data → P (header, index) (index, header.section names address data))
    {next : Addr} {headers : List (SectionHeader × Nat)} {placed : List (Nat × Section)}
    (h : layOut names b next headers = .ok placed) :
    List.Forall₂ P (headers.filter (·.1.loaded)) placed := by
  induction headers generalizing next placed with
  | nil =>
    obtain rfl : [] = placed := Except.ok.inj h
    exact .nil
  | cons e rest ih =>
    obtain ⟨header, index⟩ := e
    rcases layOut_cons_eq_ok h with
      ⟨hl, address, limit, data, others, haddress, -, hdata, hothers, rfl⟩ | ⟨hl, h⟩
    · rw [List.filter_cons, if_pos hl]
      exact .cons (hP header index next address data hl haddress hdata) (ih hothers)
    · rw [List.filter_cons, if_neg (Bool.eq_false_iff.mp hl)]
      exact ih h

/-- The sections of a layout stand behind where it starts and behind each other. -/
theorem behind_of_layOut {next : Addr} {headers : List (SectionHeader × Nat)}
    {placed : List (Nat × Section)} (h : layOut names b next headers = .ok placed) :
    (∀ p ∈ placed, next.toNat ≤ p.2.address.toNat ∧ Fits p.2.address p.2.size) ∧
      placed.Pairwise fun p q => p.2.address.toNat + p.2.size.toNat ≤ q.2.address.toNat := by
  induction headers generalizing next placed with
  | nil =>
    obtain rfl : [] = placed := Except.ok.inj h
    exact ⟨nofun, .nil⟩
  | cons e rest ih =>
    obtain ⟨header, index⟩ := e
    rcases layOut_cons_eq_ok h with
      ⟨-, address, limit, data, others, haddress, hlimit, -, hothers, rfl⟩ | ⟨-, h⟩
    · obtain ⟨-, hnext, -⟩ := SectionHeader.alignUp_eq_ok haddress
      obtain ⟨hbounds, hapart⟩ := ih hothers
      -- The others are placed from the end of this section on.
      have hbehind : ∀ p ∈ others, address.toNat + header.size.toNat ≤ p.2.address.toNat := by
        intro p hp
        rw [hlimit]
        exact (hbounds p hp).1
      refine ⟨List.forall_mem_cons.mpr ⟨⟨hnext, ?_⟩, ?_⟩, List.pairwise_cons.mpr ⟨hbehind, hapart⟩⟩
      · show address.toNat + header.size.toNat < _
        rw [hlimit]
        exact limit.toNat_lt
      · intro p hp
        have hpb := hbehind p hp
        exact ⟨by omega, (hbounds p hp).2⟩
    · exact ih h

/-- A layout that succeeds places the sections. -/
theorem placed_of_layOut {next : Addr} {headers : List (SectionHeader × Nat)}
    {placed : List (Nat × Section)} (h : layOut names b next headers = .ok placed) :
    Placed names b next headers placed := by
  obtain ⟨hbounds, hapart⟩ := behind_of_layOut h
  refine ⟨forall₂_of_layOut ?_ h, hbounds, forall_mem_of_forall₂ (forall₂_of_layOut ?_ h), hapart⟩
  · intro header index next address data _ _ hdata
    exact ⟨rfl, hdata, rfl⟩
  · intro header index next address data _ _ hdata bytes hbytes
    obtain rfl : data = some bytes := hbytes
    exact SectionHeader.size_of_contents hdata

/-- If the file has the contents of all loaded sections, a layout can only overflow. -/
theorem onlyOverflows_layOut {headers : List (SectionHeader × Nat)}
    (hfile : ∀ e ∈ headers, e.1.loaded = true → e.1.InFile b) (next : Addr) :
    OnlyOverflows (layOut names b next headers) := by
  induction headers generalizing next with
  | nil => exact .ok []
  | cons e rest ih =>
    obtain ⟨header, index⟩ := e
    have hrest := ih fun e he => hfile e (List.mem_cons_of_mem _ he)
    rw [layOut]
    by_cases hl : header.loaded = true
    · rw [if_pos hl]
      have halign : OnlyOverflows (header.alignUp next : Checked ImageError Addr) := by
        intro e he
        rw [SectionHeader.alignUp] at he
        split at he
        · cases he
        · exact (Except.error.inj he).symm
      obtain ⟨data, hdata⟩ := (hfile _ List.mem_cons_self hl).contents
      refine halign.bind fun address _ => ?_
      refine (Checked.onlyOverflows_checkedAdd _ _).bind fun limit _ => ?_
      rw [hdata]
      exact (hrest limit).bind fun others _ => .ok _
    · rw [if_neg hl]
      exact hrest next

namespace Placed

variable {next : Addr} {headers : List (SectionHeader × Nat)} {placed : List (Nat × Section)}

/-- A placed section covers the addresses up to its end. -/
theorem toNat_limit (h : Placed names b next headers placed) {p : Nat × Section}
    (hp : p ∈ placed) : p.2.limit.toNat = p.2.address.toNat + p.2.size.toNat := by
  have hfits : p.2.address.toNat + p.2.size.toNat < _ := (h.bounds p hp).2
  rw [Section.limit, toNat_saturatingAdd]
  omega

theorem sections_apart (h : Placed names b next headers placed) :
    (placed.map (·.2)).Pairwise Section.Apart := by
  rw [List.pairwise_map]
  refine h.apart.imp_of_mem ?_
  intro p q hp _ hpq a
  rintro ⟨hs, ht⟩
  have hlimit := h.toNat_limit hp
  obtain ⟨-, hlt⟩ := Section.contains_iff.mp hs
  obtain ⟨hle, -⟩ := Section.contains_iff.mp ht
  omega

end Placed

end Elf

end FlowRecovery
