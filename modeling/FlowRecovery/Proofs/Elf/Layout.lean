/-
The layout of an object.

The sections of an object are placed from `0x1000` on, in the order of their headers, each at
the next multiple of its alignment.  In a memory without end nothing could go wrong with this
(`SectionHeader.startFrom`); in a memory of words the addresses of the same layout have to be
words (`Addressable`).  Then the layout of the object is in order (`InOrder`): sections stand
at multiples of their alignments and behind each other, and no address belongs to two of them.

* `layOut_of_addressable` — a layout whose addresses are words is refused only for contents that
  the file does not have;
* `inOrder_of_layOut` — a layout is in order;
* `alike_of_loadObject` — the sections of the loaded image stand where the layout puts them;
* `File.layout_in_order` — the three together.
-/
import FlowRecovery.Proofs.Elf.Linking
import FlowRecovery.Proofs.Image.Coverage
import Mathlib.Algebra.Order.Floor.Div

namespace FlowRecovery

namespace Elf

variable {names : StringTable} {b : Bytes}

namespace SectionHeader

variable {h : SectionHeader}

/-- What the address of the section has to be a multiple of. -/
def alignment (h : SectionHeader) : Nat := max h.align.toNat 1

/-- Where the section starts if it is placed from `next` on in a memory without end. -/
def startFrom (h : SectionHeader) (next : Nat) : Nat := next ⌈/⌉ h.alignment * h.alignment

/-- Rounding up stays among the words if the start in the memory without end is one. -/
theorem alignUp_eq {ε : Type} {next : Addr}
    (hlt : h.startFrom next.toNat < 0x10000000000000000) :
    (h.alignUp next : Checked ε Addr) = .ok (.ofNat (h.startFrom next.toNat)) := by
  rw [startFrom, alignment, Nat.ceilDiv_eq_add_pred_div] at hlt ⊢
  rw [alignUp]
  exact if_pos hlt

theorem size_pos (hl : h.loaded = true) : 0 < h.size.toNat := by
  simp only [loaded, Bool.and_eq_true, decide_eq_true_eq] at hl
  refine Nat.pos_of_ne_zero fun h0 => hl.2 ?_
  exact UInt64.toNat_inj.mp h0

theorem contents_of_not_inFile (hf : ¬ h.InFile b) :
    h.contents b = .error (.pastEnd h.offset h.size) := by
  obtain ⟨htype, hle⟩ := not_or.mp hf
  rw [contents, if_neg htype, fileSlice, Binary.slice?, if_neg hle]
  rfl

end SectionHeader

/-- The addresses of the layout from `next` on are words: every loaded section ends at one. -/
def Addressable (next : Nat) : List SectionHeader → Prop
  | [] => True
  | h :: rest =>
    if h.loaded then
      h.startFrom next + h.size.toNat < 0x10000000000000000 ∧
        Addressable (h.startFrom next + h.size.toNat) rest
    else Addressable next rest

instance decidableAddressable (next : Nat) :
    (headers : List SectionHeader) → Decidable (Addressable next headers)
  | [] => .isTrue trivial
  | h :: rest =>
    let _ := decidableAddressable (h.startFrom next + h.size.toNat) rest
    let _ := decidableAddressable next rest
    inferInstanceAs (Decidable (if h.loaded then _ ∧ _ else _))

/-- A layout whose addresses are words comes out if the file has all contents, and else is
refused for contents that the file does not have. -/
theorem layOut_of_addressable {next : Addr} {headers : List (SectionHeader × Nat)}
    (h : Addressable next.toNat (headers.map (·.1))) :
    ((∀ e ∈ headers, e.1.loaded = true → e.1.InFile b) ∧
      ∃ placed, layOut names b next headers = .ok placed) ∨
    ∃ e ∈ headers, e.1.loaded = true ∧ ¬ e.1.InFile b ∧
      layOut names b next headers = .error (.refused (.pastEnd e.1.offset e.1.size)) := by
  induction headers generalizing next with
  | nil => exact Or.inl ⟨nofun, [], rfl⟩
  | cons e rest ih =>
    obtain ⟨header, index⟩ := e
    rw [List.map_cons, Addressable] at h
    dsimp only at h
    rw [layOut]
    by_cases hl : header.loaded = true
    · rw [if_pos hl] at h
      obtain ⟨hfits, hrest⟩ := h
      have hstart : (UInt64.ofNat (header.startFrom next.toNat)).toNat =
          header.startFrom next.toNat := by
        refine UInt64.toNat_ofNat_of_lt' ?_
        show _ < 0x10000000000000000
        omega
      have hlimit : (UInt64.ofNat (header.startFrom next.toNat + header.size.toNat)).toNat =
          header.startFrom next.toNat + header.size.toNat := UInt64.toNat_ofNat_of_lt' hfits
      have hadd : (checkedAdd (.ofNat (header.startFrom next.toNat)) header.size :
          Checked ImageError Addr) =
          .ok (.ofNat (header.startFrom next.toNat + header.size.toNat)) := by
        rw [checkedAdd_eq_ok, hstart, hlimit]
      rw [if_pos hl, SectionHeader.alignUp_eq (by omega)]
      simp only [bind, Except.bind, hadd]
      rw [← hlimit] at hrest
      by_cases hfile : header.InFile b
      · obtain ⟨data, hdata⟩ := hfile.contents
        rw [hdata]
        rcases ih hrest with ⟨hall, placed, hplaced⟩ | ⟨e, he, hloaded, hmissing, herror⟩
        · refine Or.inl ⟨List.forall_mem_cons.mpr ⟨fun _ => hfile, hall⟩, ?_⟩
          exact ⟨_, by rw [hplaced]; rfl⟩
        · refine Or.inr ⟨e, List.mem_cons_of_mem _ he, hloaded, hmissing, ?_⟩
          rw [herror]
          rfl
      · refine Or.inr ⟨_, List.mem_cons_self, hl, hfile, ?_⟩
        rw [SectionHeader.contents_of_not_inFile hfile]
        rfl
    · rw [if_neg hl] at h ⊢
      rcases ih h with ⟨hall, hplaced⟩ | ⟨e, he, hrefused⟩
      · exact Or.inl ⟨List.forall_mem_cons.mpr ⟨fun hloaded => absurd hloaded hl, hall⟩, hplaced⟩
      · exact Or.inr ⟨e, List.mem_cons_of_mem _ he, hrefused⟩

/-- The sections of a layout from `next` on are in order: they are those of the loaded headers,
at multiples of their alignments, not below `next`, and each behind the ends of those before;
so they are sorted, have no addresses in common, and cover no address twice. -/
structure InOrder (names : StringTable) (b : Bytes) (next : Nat)
    (headers : List (SectionHeader × Nat)) (placed : List (Nat × Section)) : Prop where
  made : List.Forall₂ (fun e p => p.1 = e.2 ∧ e.1.Makes names b p.2)
    (headers.filter (·.1.loaded)) placed
  aligned : List.Forall₂ (fun e p => e.1.alignment ∣ p.2.address.toNat)
    (headers.filter (·.1.loaded)) placed
  above : ∀ p ∈ placed, next ≤ p.2.address.toNat
  behind : placed.Pairwise fun p q => p.2.address.toNat + p.2.size.toNat ≤ q.2.address.toNat
  sorted : placed.Pairwise fun p q => p.2.address < q.2.address
  disjoint : placed.Pairwise fun p q => Disjoint p.2.span q.2.span
  once : ∀ a, placed.countP (·.2.contains a) ≤ 1

/-- A layout is in order. -/
theorem inOrder_of_layOut {next : Addr} {headers : List (SectionHeader × Nat)}
    {placed : List (Nat × Section)} (h : layOut names b next headers = .ok placed) :
    InOrder names b next.toNat headers placed := by
  have hplaced := placed_of_layOut h
  have hpos : ∀ p ∈ placed, 0 < p.2.size.toNat := by
    refine forall_mem_of_forall₂ (forall₂_of_layOut ?_ h)
    intro header index next address data hl _ _
    exact SectionHeader.size_pos hl
  refine ⟨hplaced.made, forall₂_of_layOut ?_ h, fun p hp => (hplaced.bounds p hp).1,
    hplaced.apart, ?_, ?_, ?_⟩
  · intro header index next address data _ haddress _
    exact (SectionHeader.alignUp_eq_ok haddress).1
  · refine hplaced.apart.imp_of_mem ?_
    intro p q hp _ hpq
    have := hpos p hp
    rw [UInt64.lt_iff_toNat_lt]
    omega
  · refine hplaced.apart.imp ?_
    intro p q hpq
    rw [Section.span, Section.span, Set.Ico_disjoint_Ico]
    omega
  · intro a
    refine countP_le_one ((List.pairwise_map.mp hplaced.sections_apart).imp ?_)
    intro p q hpq
    exact hpq a

/-- An image that is loaded from an object has the sections of the layout, but for the values of
their bytes. -/
theorem alike_of_loadObject {f : File} {arch : Arch} {image : Image}
    (h : f.loadObject arch b = .ok image) :
    ∃ placed, layOut f.sectionNames b 0x1000 f.sections.zipIdx = .ok placed ∧
      List.Forall₂ Section.Alike (placed.map (·.2)) image.sections := by
  obtain ⟨placed, hplaced, h⟩ := Checked.bind_eq_ok.mp h
  obtain ⟨linked, hlinked, h⟩ := Checked.bind_eq_ok.mp h
  obtain ⟨entry, -, h⟩ := Checked.bind_eq_ok.mp h
  obtain rfl := Except.ok.inj h
  refine ⟨placed, hplaced, ?_⟩
  show List.Forall₂ Section.Alike _ linked.sections
  cases arch with
  | x86 =>
    -- The records of a 32-bit object are left, and so are its sections.
    obtain rfl := Except.ok.inj hlinked
    exact List.forall₂_same.mpr fun s _ => .refl s
  | x86_64 =>
    rw [link_eq_ok hlinked, sections_foldl_fill,
      foldl_patchSections _ (placed_of_layOut hplaced).sections_apart, List.forall₂_map_right_iff]
    exact List.forall₂_same.mpr fun s _ => Section.alike_foldl_fill _ s

theorem loadObject_of_load {f : File} {image : Image} (hrelocatable : f.relocatable = true)
    (h : f.load b = .ok image) : ∃ arch, f.loadObject arch b = .ok image := by
  obtain ⟨arch, -, h⟩ := Checked.bind_eq_ok.mp h
  rw [if_pos hrelocatable] at h
  exact ⟨arch, h⟩

/-- **The sections of an object are laid out in order.**  Take an object for which the addresses
of the layout from `0x1000` on are words.  If the file has the contents of its loaded sections,
the layout comes out and is in order: the loaded sections stand in the order of their headers,
each at a multiple of its alignment and behind the ends of those before, so that no address
belongs to two of them.  Otherwise it is refused for contents that the file does not have.  The
sections of the image that is loaded from the object stand where this layout puts them. -/
theorem File.layout_in_order (f : File) (b : Bytes) (haddr : Addressable 0x1000 f.sections) :
    ((∀ h ∈ f.sections, h.loaded = true → h.InFile b) →
      ∃ placed, layOut f.sectionNames b 0x1000 f.sections.zipIdx = .ok placed ∧
        InOrder f.sectionNames b 0x1000 f.sections.zipIdx placed) ∧
    ((¬ ∀ h ∈ f.sections, h.loaded = true → h.InFile b) →
      ∃ h ∈ f.sections, h.loaded = true ∧ ¬ h.InFile b ∧
        layOut f.sectionNames b 0x1000 f.sections.zipIdx =
          .error (.refused (.pastEnd h.offset h.size))) ∧
    ∀ image, f.relocatable = true → f.load b = .ok image →
      ∃ placed, layOut f.sectionNames b 0x1000 f.sections.zipIdx = .ok placed ∧
        InOrder f.sectionNames b 0x1000 f.sections.zipIdx placed ∧
        image.sections.map (fun s => (s.address, s.size)) =
          placed.map fun p => (p.2.address, p.2.size) := by
  have hwords : Addressable (0x1000 : Addr).toNat (f.sections.zipIdx.map (·.1)) := by
    rw [List.zipIdx_map_fst]
    exact haddr
  have houtcome := @layOut_of_addressable f.sectionNames b 0x1000 f.sections.zipIdx hwords
  have hmem : ∀ e ∈ f.sections.zipIdx, e.1 ∈ f.sections :=
    fun e he => List.fst_mem_of_mem_zipIdx he
  refine ⟨?_, ?_, ?_⟩
  · intro hfile
    rcases houtcome with ⟨-, placed, hplaced⟩ | ⟨e, he, hloaded, hmissing, -⟩
    · exact ⟨placed, hplaced, inOrder_of_layOut hplaced⟩
    · exact absurd (hfile e.1 (hmem e he) hloaded) hmissing
  · intro hmissing
    rcases houtcome with ⟨hfile, -⟩ | ⟨e, he, hrefused⟩
    · refine absurd ?_ hmissing
      intro header hheader
      obtain ⟨e, he, rfl⟩ := List.mem_map.mp ((List.zipIdx_map_fst 0 f.sections).symm ▸ hheader)
      exact hfile e he
    · exact ⟨e.1, hmem e he, hrefused⟩
  · intro image hrelocatable hload
    obtain ⟨arch, hobject⟩ := loadObject_of_load hrelocatable hload
    obtain ⟨placed, hplaced, halike⟩ := alike_of_loadObject hobject
    refine ⟨placed, hplaced, inOrder_of_layOut hplaced, ?_⟩
    have hplaces : List.Forall₂ (· = ·) (placed.map fun p => (p.2.address, p.2.size))
        (image.sections.map fun s => (s.address, s.size)) := by
      rw [List.forall₂_map_left_iff] at halike ⊢
      rw [List.forall₂_map_right_iff]
      refine halike.imp ?_
      intro p s hs
      rw [hs.eq_with]
    rw [List.forall₂_eq_eq_eq] at hplaces
    exact hplaces.symm

/-- An object with code, a section that is not loaded, zeros without an alignment and data that
wants a multiple of three. -/
def File.uneven : File :=
  let header (type flags offset size align : Nat) : SectionHeader :=
    { name := 0, type, flags, address := 0, offset := .ofNat offset, size := .ofNat size, link := 0
      info := 0, align := .ofNat align, entrySize := 0 }
  { machine := 3, type := 1, entry := 0
    sections := [header 0 0 0 0 0, header 1 6 0 10 16, header 1 0 10 4 1, header 8 3 0 5 0,
      header 1 3 14 4 3] }

/-- Its loaded sections stand one behind the other, with two bytes between the last two. -/
theorem File.layout_in_order_uneven :
    Addressable 0x1000 File.uneven.sections ∧
      ∃ placed, layOut File.uneven.sectionNames (.replicate 18 0x90) 0x1000
          File.uneven.sections.zipIdx = .ok placed ∧
        InOrder File.uneven.sectionNames (.replicate 18 0x90) 0x1000
          File.uneven.sections.zipIdx placed ∧
        placed.map (fun p => (p.1, p.2.address, p.2.size)) =
          [(1, 0x1000, 10), (3, 0x100a, 5), (4, 0x1011, 4)] := by
  have hwords : Addressable 0x1000 File.uneven.sections := by decide +kernel
  have hplaces : ∀ placed ∈ Checked.get? (layOut File.uneven.sectionNames (.replicate 18 0x90)
      0x1000 File.uneven.sections.zipIdx), placed.map (fun p => (p.1, p.2.address, p.2.size)) =
        [(1, 0x1000, 10), (3, 0x100a, 5), (4, 0x1011, 4)] := by
    decide +kernel
  obtain ⟨hlayout, -⟩ := File.layout_in_order File.uneven (.replicate 18 0x90) hwords
  obtain ⟨placed, hplaced, horder⟩ := hlayout (by decide +kernel)
  exact ⟨hwords, placed, hplaced, horder, hplaces placed (by rw [hplaced]; rfl)⟩

end Elf

end FlowRecovery
