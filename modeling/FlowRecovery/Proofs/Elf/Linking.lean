/-
Relocated objects.

A relocation record for a loaded section that refers to a symbol of a loaded section fills a
field of the object, its `Fixup`.  Records are applied one by one, each through a look-up of the
section that its field lies in.

* `link_eq_ok` — applying the records is filling the fields in their order;
* `patchSections_eq_map`, `foldl_patchSections` — since sections are apart, each of them can be
  followed on its own;
* `Section.fileByte?_fill_outside`, `Section.fileByte?_fill_inside` — what filling one field does
  to a byte, and `Section.fileByte?_foldl_outside`, `Section.fileByte?_foldl_inside` — what
  filling all of them does, if they have no byte in common;
* `File.load_links` — a loaded object is linked.
-/
import FlowRecovery.Proofs.Elf.Placement
import FlowRecovery.Proofs.Image.Strings

namespace FlowRecovery

open Checked (OnlyOverflows)

namespace Elf

/-! ### Fields and records -/

/-- How many bytes a record of the given type is for, and whether their value is relative to
their own place. -/
def fieldForm? (type : Nat) : Option (Nat × Bool) :=
  match type with
  | 1 => some (8, false)
  | 10 => some (4, false)
  | 11 => some (4, false)
  | 2 => some (4, true)
  | 4 => some (4, true)
  | _ => none

/-- A field that a relocation record fills: where it is, the symbol's address, the addend, how
wide it is, and whether its value is relative to its place. -/
structure Fixup where
  site : Addr
  target : Addr
  addend : Int64
  width : Nat
  relative : Bool
  deriving DecidableEq, Repr

namespace Fixup

/-- The symbol's address and the addend. -/
def total (x : Fixup) : Word := x.target + x.addend.toUInt64

/-- What the field holds. -/
def value (x : Fixup) : Word := if x.relative then x.total - x.site else x.total

/-- What is noted about an absolute field. -/
def relocation (x : Fixup) : Relocation :=
  { site := x.site, target := x.target, size := .ofNat x.width, addend := x.addend }

/-- Whether the field has the byte at an address. -/
def Covers (x : Fixup) (n : Nat) : Prop := x.site.toNat ≤ n ∧ n < x.site.toNat + x.width

/-- No byte belongs to both fields. -/
def Apart (x y : Fixup) : Prop :=
  x.site.toNat + x.width ≤ y.site.toNat ∨ y.site.toNat + y.width ≤ x.site.toNat

instance (x y : Fixup) : Decidable (x.Apart y) := inferInstanceAs (Decidable (_ ∨ _))

end Fixup

/-- The field of a record for the section at `base`.  A record that has no addend counts as
having zero. -/
def fixup? (symbols : List Symbol) (bases : Bases) (base : Addr) (r : Reloc) : Option Fixup := do
  let symbol ← symbols[r.symbol]?
  let symbolBase ← bases.lookup symbol.sect
  let (width, relative) ← fieldForm? r.type
  return { site := base + r.offset, target := symbolBase + symbol.value
           addend := r.addend.getD 0, width, relative }

/-- The fields that the records for one section fill. -/
def tableFixups (symbols : List Symbol) (bases : Bases) (table : Nat × List Reloc) : List Fixup :=
  match bases.lookup table.1 with
  | none => []
  | some base => table.2.filterMap (fixup? symbols bases base)

/-- The fields that the records of an object fill, in order. -/
def File.fixups (f : File) (bases : Bases) : List Fixup :=
  f.sectionRelocs.flatMap (tableFixups f.symbols bases)

/-- Fill a field. -/
def Linked.fill (l : Linked) (x : Fixup) : Linked :=
  { sections := patchSections x.site x.value x.width l.sections
    relocations := l.relocations ++ if x.relative then [] else [x.relocation] }

variable {ε : Type} {symbols : List Symbol} {bases : Bases}

theorem eq_of_checkedAdd {a b c : Word} (h : (checkedAdd a b : Checked ε Word) = .ok c) :
    a + b = c := by
  rw [checkedAdd] at h
  split at h
  · exact Except.ok.inj h
  · cases h

/-- Applying a record fills its field, if it has one. -/
theorem applyReloc_eq_ok {base : Addr} {l l' : Linked} {r : Reloc}
    (h : (applyReloc symbols bases base l r : Checked ε Linked) = .ok l') :
    l' = (fixup? symbols bases base r).toList.foldl Linked.fill l := by
  rw [applyReloc] at h
  obtain ⟨site, hsite, h⟩ := Checked.bind_eq_ok.mp h
  obtain rfl : base + r.offset = site := eq_of_checkedAdd hsite
  cases hsymbol : symbols[r.symbol]? with
  | none =>
    simp only [hsymbol] at h
    simpa [fixup?, hsymbol] using (Except.ok.inj h).symm
  | some symbol =>
    simp only [hsymbol] at h
    cases hbase : bases.lookup symbol.sect with
    | none =>
      simp only [hbase] at h
      simpa [fixup?, hsymbol, hbase] using (Except.ok.inj h).symm
    | some symbolBase =>
      simp only [hbase] at h
      obtain ⟨target, htarget, h⟩ := Checked.bind_eq_ok.mp h
      obtain rfl : symbolBase + symbol.value = target := eq_of_checkedAdd htarget
      simp only [fixup?, hsymbol, hbase, Option.bind_eq_bind, Option.bind_some]
      -- One case for each type of record that fills a field, and one for all others.
      split at h
      all_goals
        rename_i htype
        obtain rfl := Except.ok.inj h
        simp [fieldForm?, htype, Linked.fill, Fixup.value, Fixup.total, Fixup.relocation]

/-- If every step fills the fields of its item, then all steps fill the fields of all items. -/
theorem eq_foldl_of_foldlM {α : Type} {step : Linked → α → Checked ε Linked}
    {fixups : α → List Fixup}
    (hstep : ∀ l l' a, step l a = .ok l' → l' = (fixups a).foldl Linked.fill l)
    {items : List α} {l l' : Linked} (h : items.foldlM step l = .ok l') :
    l' = (items.flatMap fixups).foldl Linked.fill l := by
  induction items generalizing l with
  | nil => exact (Except.ok.inj h).symm
  | cons a items ih =>
    rw [List.foldlM_cons] at h
    obtain ⟨next, hnext, h⟩ := Checked.bind_eq_ok.mp h
    rw [List.flatMap_cons, List.foldl_append, ← hstep l next a hnext]
    exact ih h

theorem applyTable_eq_ok {l l' : Linked} {table : Nat × List Reloc}
    (h : (applyTable symbols bases l table : Checked ε Linked) = .ok l') :
    l' = (tableFixups symbols bases table).foldl Linked.fill l := by
  rw [applyTable] at h
  rw [tableFixups]
  cases hbase : bases.lookup table.1 with
  | none =>
    simp only [hbase] at h
    exact (Except.ok.inj h).symm
  | some base =>
    simp only [hbase] at h ⊢
    rw [List.filterMap_eq_flatMap_toList]
    refine eq_foldl_of_foldlM ?_ h
    intro l l' r hr
    exact applyReloc_eq_ok hr

/-- Linking an object fills the fields of its records in order. -/
theorem link_eq_ok {f : File} {sections : List Section} {l : Linked}
    (h : (f.link .x86_64 bases sections : Checked ε Linked) = .ok l) :
    l = (f.fixups bases).foldl Linked.fill { sections } := by
  rw [File.link] at h
  refine eq_foldl_of_foldlM ?_ h
  intro l l' table htable
  exact applyTable_eq_ok htable

/-- Linking can only overflow. -/
theorem onlyOverflows_link (f : File) (arch : Arch) (bases : Bases) (sections : List Section) :
    OnlyOverflows (f.link arch bases sections : Checked ε Linked) := by
  have hreloc : ∀ base r l,
      OnlyOverflows (applyReloc f.symbols bases base l r : Checked ε Linked) := by
    intro base r l
    refine (Checked.onlyOverflows_checkedAdd base r.offset).bind fun site _ => ?_
    split
    · exact .ok l
    · split
      · exact .ok l
      · refine (Checked.onlyOverflows_checkedAdd _ _).bind fun target _ => ?_
        dsimp only
        split <;> exact .ok _
  cases arch with
  | x86 => exact .ok _
  | x86_64 =>
    refine Checked.onlyOverflows_foldlM ?_ _
    intro table _ l
    rw [applyTable]
    split
    · exact .ok l
    · exact Checked.onlyOverflows_foldlM (fun r _ l => hreloc _ r l) l

theorem onlyOverflows_objectEntry (f : File) (bases : Bases) (symbols : List Symbol) :
    OnlyOverflows (f.objectEntry bases symbols : Checked ε (Option Addr)) := by
  induction symbols with
  | nil => exact .ok none
  | cons symbol rest ih =>
    rw [File.objectEntry]
    split
    · split
      · intro e he
        rw [checkedAdd] at he
        split at he
        · cases he
        · exact (Except.error.inj he).symm
      · exact ih
    · exact ih

theorem relocations_foldl_fill (fixups : List Fixup) (l : Linked) :
    (fixups.foldl Linked.fill l).relocations =
      l.relocations ++ (fixups.filter (!·.relative)).map Fixup.relocation := by
  induction fixups generalizing l with
  | nil => simp
  | cons x fixups ih =>
    rw [List.foldl_cons, ih, Linked.fill, List.filter_cons]
    cases hx : x.relative <;> simp

theorem sections_foldl_fill (fixups : List Fixup) (l : Linked) :
    (fixups.foldl Linked.fill l).sections =
      fixups.foldl (fun ss x => patchSections x.site x.value x.width ss) l.sections := by
  induction fixups generalizing l with
  | nil => rfl
  | cons x fixups ih =>
    rw [List.foldl_cons, ih]
    rfl

end Elf

/-! ### The bytes of one section -/

namespace Section

open Elf (Fixup)

/-- The byte that the file has at an offset into the section. -/
def fileByte? (s : Section) (n : Nat) : Option UInt8 := s.data.bind (·[n]?)

theorem byteAt_eq (s : Section) (n : Nat) : s.byteAt n = (s.fileByte? n).getD 0 := by
  rw [byteAt, fileByte?]
  cases s.data with
  | none => rfl
  | some data => exact Array.getD_eq_getD_getElem?

/-- The sections differ at most in the values of their bytes. -/
structure Alike (s t : Section) : Prop where
  eq_with : t = { s with data := t.data }
  size_eq : t.data.map Array.size = s.data.map Array.size

namespace Alike

variable {s t u : Section}

theorem refl (s : Section) : s.Alike s := ⟨rfl, rfl⟩

theorem trans (h : s.Alike t) (h' : t.Alike u) : s.Alike u := by
  refine ⟨?_, h'.size_eq.trans h.size_eq⟩
  have heq := h'.eq_with
  rw [h.eq_with] at heq
  exact heq

theorem address_eq (h : s.Alike t) : t.address = s.address := by
  rw [h.eq_with]

theorem contains_eq (h : s.Alike t) (a : Addr) : t.contains a = s.contains a := by
  rw [h.eq_with]
  rfl

end Alike

/-- The section with the field filled, if the field starts in it. -/
def fill (s : Section) (x : Fixup) : Section :=
  if s.contains x.site then s.patch x.site x.value x.width else s

theorem alike_fill (s : Section) (x : Fixup) : s.Alike (s.fill x) := by
  rw [fill]
  split
  · rw [patch]
    cases hdata : s.data with
    | none => exact .refl s
    | some data =>
      dsimp only
      split
      · exact ⟨rfl, by rw [hdata, Option.map_some, Option.map_some, Binary.size_write]⟩
      · exact .refl s
  · exact .refl s

theorem alike_foldl_fill (fixups : List Fixup) (s : Section) : s.Alike (fixups.foldl fill s) := by
  induction fixups generalizing s with
  | nil => exact .refl s
  | cons x fixups ih => exact (s.alike_fill x).trans (ih (s.fill x))

/-- A byte that does not belong to the field stays. -/
theorem fileByte?_fill_outside {s : Section} {x : Fixup} {n : Nat}
    (h : ¬ x.Covers (s.address.toNat + n)) : (s.fill x).fileByte? n = s.fileByte? n := by
  rw [fill]
  split
  · next hcontains =>
    obtain ⟨-, hoffset⟩ := offset_of_contains hcontains
    rw [patch]
    cases hdata : s.data with
    | none => rfl
    | some data =>
      dsimp only
      split
      · show (Binary.write data _ _)[n]? = s.data.bind (·[n]?)
        rw [hdata, Option.bind_some]
        apply Binary.getElem?_write_outside
        rw [Binary.length_littleEndian]
        rw [Fixup.Covers] at h
        omega
      · rfl
  · rfl

/-- The field lies in the part of the section that the file has. -/
structure Holds (s : Section) (x : Fixup) : Prop where
  inside : s.contains x.site = true
  backed : ∃ data, s.data = some data ∧ (x.site - s.address).toNat + x.width ≤ data.size

theorem Holds.alike {s t : Section} {x : Fixup} (h : s.Holds x) (ht : s.Alike t) : t.Holds x := by
  refine ⟨(ht.contains_eq x.site).trans h.inside, ?_⟩
  obtain ⟨data, hdata, hle⟩ := h.backed
  have hsize := ht.size_eq
  rw [hdata, Option.map_some, Option.map_eq_some_iff] at hsize
  obtain ⟨data', hdata', hsize⟩ := hsize
  exact ⟨data', hdata', by rw [ht.address_eq, hsize]; exact hle⟩

/-- The bytes of the field are those of its value. -/
theorem fileByte?_fill_inside {s : Section} {x : Fixup} (h : s.Holds x) {k : Nat}
    (hk : k < x.width) :
    (s.fill x).fileByte? ((x.site - s.address).toNat + k) =
      (Binary.littleEndian x.value x.width)[k]? := by
  obtain ⟨data, hdata, hle⟩ := h.backed
  rw [fill, if_pos h.inside, patch]
  simp only [hdata]
  rw [if_pos hle]
  show (Binary.write data _ _)[_]? = _
  apply Binary.getElem?_write_inside
  · rw [Binary.length_littleEndian]
    exact hk
  · omega

/-- A byte that belongs to no field stays when all are filled. -/
theorem fileByte?_foldl_outside {fixups : List Fixup} {s : Section} {n : Nat}
    (h : ∀ x ∈ fixups, ¬ x.Covers (s.address.toNat + n)) :
    (fixups.foldl fill s).fileByte? n = s.fileByte? n := by
  induction fixups generalizing s with
  | nil => rfl
  | cons x fixups ih =>
    have haddress := (s.alike_fill x).address_eq
    rw [List.foldl_cons, ih, fileByte?_fill_outside (h x List.mem_cons_self)]
    rw [haddress]
    exact fun y hy => h y (List.mem_cons_of_mem x hy)

/-- If no byte belongs to two fields, each field holds its value when all are filled: those
filled before it are overwritten nowhere in it, and those filled later do not touch it. -/
theorem fileByte?_foldl_inside {fixups : List Fixup} {s : Section} {x : Fixup}
    (hapart : fixups.Pairwise Fixup.Apart) (hx : x ∈ fixups) (h : s.Holds x) {k : Nat}
    (hk : k < x.width) :
    (fixups.foldl fill s).fileByte? ((x.site - s.address).toNat + k) =
      (Binary.littleEndian x.value x.width)[k]? := by
  induction fixups generalizing s with
  | nil => cases hx
  | cons y fixups ih =>
    obtain ⟨hy, hapart⟩ := List.pairwise_cons.mp hapart
    have hlike := s.alike_fill y
    rw [List.foldl_cons]
    rcases List.mem_cons.mp hx with rfl | hx
    · rw [fileByte?_foldl_outside, fileByte?_fill_inside h hk]
      intro z hz hcovers
      have hz : x.Apart z := hy z hz
      obtain ⟨-, hoffset⟩ := offset_of_contains h.inside
      rw [hlike.address_eq, Fixup.Covers] at hcovers
      rw [Fixup.Apart] at hz
      omega
    · rw [← hlike.address_eq]
      exact ih hapart hx (h.alike hlike)

/-- So the field reads as its value. -/
theorem toList_bytesFrom_foldl {fixups : List Fixup} {s : Section} {x : Fixup}
    (hapart : fixups.Pairwise Fixup.Apart) (hx : x ∈ fixups) (h : s.Holds x) :
    ((fixups.foldl fill s).bytesFrom (x.site - s.address).toNat x.width).toList =
      Binary.littleEndian x.value x.width := by
  refine List.ext_getElem (by simp [bytesFrom]) ?_
  intro k hk hk'
  rw [Binary.length_littleEndian] at hk'
  simp only [bytesFrom, Array.toList_ofFn, List.getElem_ofFn]
  rw [byteAt_eq, fileByte?_foldl_inside hapart hx h hk', List.getElem?_eq_getElem]
  rfl

end Section

namespace Elf

/-! ### All sections -/

/-- At most one of several sections that are apart has the start of the field. -/
theorem patchSections_eq_map {sections : List Section} (h : sections.Pairwise Section.Apart)
    (x : Fixup) :
    patchSections x.site x.value x.width sections = sections.map (·.fill x) := by
  induction sections with
  | nil => rfl
  | cons s rest ih =>
    obtain ⟨hs, hrest⟩ := List.pairwise_cons.mp h
    rw [patchSections, List.map_cons, Section.fill]
    by_cases hcontains : s.contains x.site = true
    · rw [if_pos hcontains, if_pos hcontains]
      have hsame : rest.map (·.fill x) = rest := by
        refine (List.map_congr_left ?_).trans (List.map_id rest)
        intro t ht
        rw [Section.fill, if_neg fun htx => hs t ht x.site ⟨hcontains, htx⟩]
        rfl
      rw [hsame]
    · rw [if_neg hcontains, if_neg hcontains, ih hrest]

theorem pairwise_apart_map {sections : List Section} (h : sections.Pairwise Section.Apart)
    {g : Section → Section} (hg : ∀ s : Section, s.Alike (g s)) :
    (sections.map g).Pairwise Section.Apart := by
  rw [List.pairwise_map]
  refine h.imp ?_
  intro s t hst a
  rw [(hg s).contains_eq, (hg t).contains_eq]
  exact hst a

/-- Filling fields in all sections is filling them in each. -/
theorem foldl_patchSections (fixups : List Fixup) {sections : List Section}
    (h : sections.Pairwise Section.Apart) :
    fixups.foldl (fun ss x => patchSections x.site x.value x.width ss) sections =
      sections.map (fixups.foldl Section.fill) := by
  induction fixups generalizing sections with
  | nil => exact (List.map_id sections).symm
  | cons x fixups ih =>
    rw [List.foldl_cons, patchSections_eq_map h,
      ih (pairwise_apart_map h fun s => s.alike_fill x), List.map_map]
    rfl

/-! ### Loaded objects -/

theorem width_pos_of_fieldForm? {type : Nat} {form : Nat × Bool}
    (h : fieldForm? type = some form) : 0 < form.1 := by
  unfold fieldForm? at h
  split at h <;> cases h <;> decide

theorem width_of_mem_fixups {f : File} {bases : Bases} {x : Fixup} (hx : x ∈ f.fixups bases) :
    0 < x.width := by
  obtain ⟨table, -, hx⟩ := List.mem_flatMap.mp hx
  rw [tableFixups] at hx
  split at hx
  · cases hx
  · obtain ⟨r, -, hr⟩ := List.mem_filterMap.mp hx
    simp only [fixup?, Option.bind_eq_bind, Option.bind_eq_some_iff] at hr
    obtain ⟨symbol, -, symbolBase, -, form, hform, hr⟩ := hr
    obtain rfl := Option.some.inj hr
    exact width_pos_of_fieldForm? hform

/-- The headers of the loaded sections, with their indices. -/
def File.loadedHeaders (f : File) : List (SectionHeader × Nat) :=
  f.sections.zipIdx.filter (·.1.loaded)

/-- Where the sections of an object stand in an image with one section for each loaded header. -/
def File.basesIn (f : File) (image : Image) : Bases :=
  (f.loadedHeaders.map (·.2)).zip (image.sections.map (·.address))

/-- The field lies in the part of a section that the file has. -/
def Fixup.BackedIn (x : Fixup) (image : Image) : Prop :=
  ∃ s ∈ image.sections, s.data.isSome = true ∧ s.address.toNat ≤ x.site.toNat ∧
    x.site.toNat + x.width ≤ s.address.toNat + s.size.toNat

instance (x : Fixup) (image : Image) : Decidable (x.BackedIn image) :=
  inferInstanceAs (Decidable (∃ s ∈ image.sections, _))

/-- The section is the one of the header, and outside the fields it has the bytes of the file. -/
structure SectionHeader.KeptIn (h : SectionHeader) (names : StringTable) (b : Bytes)
    (fixups : List Fixup) (s : Section) : Prop where
  eq_section : s = h.section names s.address s.data
  zeros : h.type = noBitsType → s.data = none
  bytes : h.type ≠ noBitsType → ∃ data, s.data = some data ∧ data.size = h.size.toNat ∧
    ∀ n < data.size, (∀ x ∈ fixups, ¬ x.Covers (s.address.toNat + n)) →
      data[n]? = b[h.offset.toNat + n]?

/-- The image is the object with its fields filled: every field holds its value, all other bytes
are those of the file, and of the relocations exactly the absolute ones are noted, by site. -/
structure File.LinkedIn (f : File) (b : Bytes) (image : Image) : Prop where
  fields : ∀ x ∈ f.fixups (f.basesIn image), ∃ bytes, image.read x.site x.width = .ok bytes ∧
    Binary.ofLittleEndian bytes.toList = x.value.toNat % 256 ^ x.width
  others : List.Forall₂
    (fun e s => e.1.KeptIn f.sectionNames b (f.fixups (f.basesIn image)) s)
    f.loadedHeaders image.sections
  noted : (image.relocations.map fun r => (r, r.value)).Perm
    (((f.fixups (f.basesIn image)).filter (!·.relative)).map fun x => (x.relocation, x.total))
  ordered : image.relocations.Pairwise fun r s => r.site ≤ s.site

theorem pairwise_bySite (l : List Relocation) :
    (bySite l).Pairwise fun r s => r.site ≤ s.site := by
  have hsorted : (bySite l).Pairwise fun r s => decide (r.site ≤ s.site) = true := by
    refine List.pairwise_mergeSort ?_ ?_ l
    · intro r s t hrs hst
      rw [decide_eq_true_eq] at *
      exact UInt64.le_trans hrs hst
    · intro r s
      rw [Bool.or_eq_true, decide_eq_true_eq, decide_eq_true_eq]
      exact UInt64.le_total r.site s.site
  exact hsorted.imp fun hrs => decide_eq_true_eq.mp hrs

theorem load_eq_loadObject {f : File} (hmachine : f.machine = 62) (htype : f.type = 1)
    (b : Bytes) : f.load b = f.loadObject .x86_64 b := by
  have harch : f.arch = .ok .x86_64 := by rw [File.arch, if_pos hmachine]
  have hrelocatable : f.relocatable = true := by rw [File.relocatable, htype]; rfl
  rw [File.load, harch]
  exact if_pos hrelocatable

/-- If the file has the contents of all loaded sections, loading an object can only overflow. -/
theorem onlyOverflows_loadObject {f : File} {b : Bytes} (arch : Arch)
    (hfile : ∀ h ∈ f.sections, h.loaded = true → h.InFile b) :
    OnlyOverflows (f.loadObject arch b) := by
  have hlayout : OnlyOverflows (layOut f.sectionNames b 0x1000 f.sections.zipIdx) := by
    refine onlyOverflows_layOut ?_ _
    intro e he
    exact hfile e.1 (List.fst_mem_of_mem_zipIdx he)
  refine hlayout.bind fun placed _ => ?_
  refine (onlyOverflows_link f arch _ _).bind fun linked _ => ?_
  exact (onlyOverflows_objectEntry f _ _).bind fun entry _ => .ok _

/-- The image consists of the placed sections of the object with the fields filled. -/
structure File.FilledIn (f : File) (b : Bytes) (placed : List (Nat × Section)) (image : Image) :
    Prop where
  layout : Placed f.sectionNames b 0x1000 f.sections.zipIdx placed
  sections : image.sections =
    (placed.map (·.2)).map ((f.fixups (f.basesIn image)).foldl Section.fill)
  relocations : image.relocations =
    bySite (((f.fixups (f.basesIn image)).filter (!·.relative)).map Fixup.relocation)

theorem filled_of_loadObject {f : File} {b : Bytes} {image : Image}
    (h : f.loadObject .x86_64 b = .ok image) : ∃ placed, f.FilledIn b placed image := by
  obtain ⟨placed, hplaced, h⟩ := Checked.bind_eq_ok.mp h
  obtain ⟨linked, hlinked, h⟩ := Checked.bind_eq_ok.mp h
  obtain ⟨entry, -, h⟩ := Checked.bind_eq_ok.mp h
  have hp := placed_of_layOut hplaced
  have hl := link_eq_ok hlinked
  have hsections : linked.sections = (placed.map (·.2)).map
      ((f.fixups (placed.map fun p => (p.1, p.2.address))).foldl Section.fill) := by
    rw [hl, sections_foldl_fill, foldl_patchSections _ hp.sections_apart]
  have himage : image.sections = linked.sections := by rw [← Except.ok.inj h]
  -- Filling fields moves no section.
  have hbases : f.basesIn image = placed.map fun p => (p.1, p.2.address) := by
    have hindices : f.loadedHeaders.map (·.2) = placed.map (·.1) := by
      rw [← List.forall₂_eq_eq_eq, List.forall₂_map_left_iff, List.forall₂_map_right_iff]
      exact hp.made.imp fun e p hep => hep.1.symm
    have haddresses : image.sections.map (·.address) = placed.map (·.2.address) := by
      rw [himage, hsections, List.map_map, List.map_map]
      refine List.map_congr_left ?_
      intro p _
      exact (Section.alike_foldl_fill _ p.2).address_eq
    rw [File.basesIn, hindices, haddresses, List.zip_map']
  refine ⟨placed, hp, ?_, ?_⟩
  · rw [hbases, himage, hsections]
  · rw [hbases, ← Except.ok.inj h, hl, relocations_foldl_fill]
    rfl

namespace File.FilledIn

variable {f : File} {b : Bytes} {placed : List (Nat × Section)} {image : Image} {x : Fixup}

/-- A field that lies in a section of the image lay in the section before it was filled. -/
theorem exists_holds (h : f.FilledIn b placed image) (hwidth : 0 < x.width)
    (hx : x.BackedIn image) : ∃ p ∈ placed, p.2.Holds x := by
  obtain ⟨s, hs, hsome, hle, hend⟩ := hx
  rw [h.sections, List.map_map] at hs
  obtain ⟨p, hp, rfl⟩ := List.mem_map.mp hs
  have hlike := Section.alike_foldl_fill (f.fixups (f.basesIn image)) p.2
  have hlimit := h.layout.toNat_limit hp
  have hsize : ((f.fixups (f.basesIn image)).foldl Section.fill p.2).size = p.2.size := by
    rw [hlike.eq_with]
  simp only [Function.comp_apply, hlike.address_eq, hsize] at hle hend
  have hinside : p.2.contains x.site = true := by
    rw [Section.contains_iff]
    omega
  -- Filling fields keeps whether there are bytes, and how many.
  obtain ⟨data, hdata⟩ : ∃ data, p.2.data = some data := by
    have hsizes := congrArg Option.isSome hlike.size_eq
    rw [Option.isSome_map, Option.isSome_map] at hsizes
    exact Option.isSome_iff_exists.mp (hsizes.symm.trans hsome)
  refine ⟨p, hp, hinside, data, hdata, ?_⟩
  obtain ⟨-, hoffset⟩ := Section.offset_of_contains hinside
  have hdatasize := h.layout.sized p hp data hdata
  omega

theorem sections_apart (h : f.FilledIn b placed image) : image.SectionsApart := by
  rw [Image.SectionsApart, h.sections]
  exact pairwise_apart_map h.layout.sections_apart (Section.alike_foldl_fill _)

/-- Each field holds its value. -/
theorem read_field (h : f.FilledIn b placed image)
    (hapart : (f.fixups (f.basesIn image)).Pairwise Fixup.Apart)
    (hx : x ∈ f.fixups (f.basesIn image)) (hbacked : x.BackedIn image) :
    ∃ bytes, image.read x.site x.width = .ok bytes ∧
      Binary.ofLittleEndian bytes.toList = x.value.toNat % 256 ^ x.width := by
  obtain ⟨p, hp, hholds⟩ := h.exists_holds (width_of_mem_fixups hx) hbacked
  have hlike := Section.alike_foldl_fill (f.fixups (f.basesIn image)) p.2
  have hmem : (f.fixups (f.basesIn image)).foldl Section.fill p.2 ∈ image.sections := by
    rw [h.sections, List.map_map]
    exact List.mem_map.mpr ⟨p, hp, rfl⟩
  have hbytes := Section.toList_bytesFrom_foldl hapart hx hholds
  generalize (f.fixups (f.basesIn image)).foldl Section.fill p.2 = s at *
  obtain ⟨hle, hlt⟩ := Section.contains_iff.mp hholds.inside
  obtain ⟨data, hdata, hend⟩ := hholds.backed
  obtain ⟨-, hoffset⟩ := Section.offset_of_contains hholds.inside
  have hplimit := h.layout.toNat_limit hp
  have hlimit : s.limit.toNat = p.2.limit.toNat := by
    rw [hlike.eq_with]
    rfl
  have hdatasize := h.layout.sized p hp data hdata
  have hread : image.read (UInt64.ofNat x.site.toNat) x.width =
      .ok (s.bytesFrom (x.site.toNat - s.address.toNat) x.width) := by
    refine h.sections_apart.read_eq hmem ?_ ?_ ?_
    · rw [hlike.address_eq]
      exact hle
    · omega
    · omega
  rw [UInt64.ofNat_toNat] at hread
  refine ⟨_, hread, ?_⟩
  have hstart : x.site.toNat - s.address.toNat = (x.site - p.2.address).toNat := by
    rw [hlike.address_eq]
    omega
  rw [hstart, hbytes, Binary.ofLittleEndian_littleEndian]

/-- Outside the fields every section has the bytes of the file. -/
theorem kept (h : f.FilledIn b placed image) :
    List.Forall₂ (fun e s => e.1.KeptIn f.sectionNames b (f.fixups (f.basesIn image)) s)
      f.loadedHeaders image.sections := by
  rw [h.sections, List.forall₂_map_right_iff, List.forall₂_map_right_iff]
  refine h.layout.made.imp ?_
  rintro ⟨header, index⟩ ⟨index', s⟩ ⟨-, hmakes⟩
  dsimp only at hmakes ⊢
  generalize f.fixups (f.basesIn image) = fixups
  have hlike := Section.alike_foldl_fill fixups s
  have hsame : ∀ n, (∀ x ∈ fixups, ¬ x.Covers (s.address.toNat + n)) →
      (fixups.foldl Section.fill s).fileByte? n = s.fileByte? n := by
    intro n
    exact Section.fileByte?_foldl_outside
  generalize fixups.foldl Section.fill s = t at *
  have haddress := hlike.address_eq
  have heq := hlike.eq_with
  have hsize := hlike.size_eq
  refine ⟨?_, ?_, ?_⟩
  · rw [heq, hmakes.eq_section]
    rfl
  · intro htype
    rcases SectionHeader.contents_eq_ok.mp hmakes.contents with ⟨-, hnone⟩ | ⟨hne, -⟩
    · rw [hnone, Option.map_none] at hsize
      exact Option.map_eq_none_iff.mp hsize
    · exact absurd htype hne
  · intro htype
    rcases SectionHeader.contents_eq_ok.mp hmakes.contents with ⟨hty, -⟩ | ⟨-, hle, hsome⟩
    · exact absurd hty htype
    · rw [hsome, Option.map_some, Option.map_eq_some_iff] at hsize
      obtain ⟨data, hdata, hsize⟩ := hsize
      rw [Array.size_extract] at hsize
      refine ⟨data, hdata, by omega, ?_⟩
      intro n hn hfree
      rw [haddress] at hfree
      have hbyte := hsame n hfree
      rw [Section.fileByte?, hdata, Section.fileByte?, hsome, Option.bind_some, Option.bind_some,
        Array.getElem?_extract] at hbyte
      rw [hbyte, if_pos (by omega)]

/-- The absolute fields are noted, by site. -/
theorem noted (h : f.FilledIn b placed image) :
    (image.relocations.map fun r => (r, r.value)).Perm
        (((f.fixups (f.basesIn image)).filter (!·.relative)).map
          fun x => (x.relocation, x.total)) ∧
      image.relocations.Pairwise fun r s => r.site ≤ s.site := by
  rw [h.relocations]
  constructor
  · refine ((List.mergeSort_perm _ _).map _).trans ?_
    rw [List.map_map]
    exact .refl _
  · exact pairwise_bySite _

end File.FilledIn

/-- **Objects are linked.**  Take an x86-64 object whose loaded sections have their contents in
the file, and whose addresses do not overflow.  It is loaded, and if the fields of its records
have no byte in common and lie in sections that the file has the contents of, then every field
holds the symbol's address and the addend, less its own address where it is relative, as far as
the field is wide; every other byte is the file's; and exactly the absolute fields are noted
as relocations, in the order of their sites. -/
theorem File.load_links (f : File) (b : Bytes) (hmachine : f.machine = 62) (htype : f.type = 1)
    (hfile : ∀ h ∈ f.sections, h.loaded = true → h.InFile b)
    (hoverflow : f.load b ≠ .error .overflow) :
    ∃ image, f.load b = .ok image ∧
      ((f.fixups (f.basesIn image)).Pairwise Fixup.Apart →
        (∀ x ∈ f.fixups (f.basesIn image), x.BackedIn image) → f.LinkedIn b image) := by
  rw [load_eq_loadObject hmachine htype] at hoverflow ⊢
  obtain ⟨image, himage⟩ := (onlyOverflows_loadObject .x86_64 hfile).exists_ok hoverflow
  obtain ⟨placed, h⟩ := filled_of_loadObject himage
  refine ⟨image, himage, ?_⟩
  intro hapart hbacked
  exact ⟨fun x hx => h.read_field hapart hx (hbacked x hx), h.kept, h.noted.1, h.noted.2⟩

/-- An object with code, data and zeros: its code refers to the data relative to its own place
and by a sign-extended address below the symbol, its data to the code, and a last record refers
to a symbol that no section has. -/
def File.crossing : File :=
  let header (type flags offset size align : Nat) : SectionHeader :=
    { name := 0, type, flags, address := 0, offset := .ofNat offset, size := .ofNat size, link := 0
      info := 0, align := .ofNat align, entrySize := 0 }
  { machine := 62, type := 1, entry := 0
    sections := [header 0 0 0 0 0, header 1 6 0 16 16, header 1 3 16 16 8, header 8 3 32 8 0]
    symbols := [⟨0, 0, 0⟩, ⟨0, 2, 8⟩, ⟨0, 1, 4⟩]
    sectionRelocs :=
      [(1, [⟨2, 1, 2, some (-4)⟩, ⟨8, 1, 11, some (-16)⟩, ⟨12, 0, 4, some 0⟩]),
       (2, [⟨0, 2, 1, some 1⟩])] }

/-- The contents of that object. -/
def crossingBytes : Bytes := Array.replicate 32 0x90

/-- The sections of that object stand one behind the other, and the fields of its records are
apart. -/
theorem File.load_links_crossing :
    File.crossing.load crossingBytes ≠ .error .overflow ∧
      ∃ image, File.crossing.load crossingBytes = .ok image ∧
        File.crossing.fixups (File.crossing.basesIn image) =
          [⟨0x1002, 0x1018, -4, 4, true⟩, ⟨0x1008, 0x1018, -16, 4, false⟩,
           ⟨0x1010, 0x1004, 1, 8, false⟩] ∧
        File.crossing.LinkedIn crossingBytes image := by
  have hoverflow : File.crossing.load crossingBytes ≠ .error .overflow := by decide +kernel
  have hfields : ∀ image ∈ Checked.get? (File.crossing.load crossingBytes),
      File.crossing.fixups (File.crossing.basesIn image) =
          [⟨0x1002, 0x1018, -4, 4, true⟩, ⟨0x1008, 0x1018, -16, 4, false⟩,
           ⟨0x1010, 0x1004, 1, 8, false⟩] ∧
        ∀ x ∈ File.crossing.fixups (File.crossing.basesIn image), x.BackedIn image := by
    decide +kernel
  obtain ⟨image, hload, hlinks⟩ :=
    File.load_links File.crossing crossingBytes rfl rfl (by decide +kernel) hoverflow
  obtain ⟨hfixups, hbacked⟩ := hfields image (by rw [hload]; rfl)
  refine ⟨hoverflow, image, hload, hfixups, hlinks ?_ hbacked⟩
  rw [hfixups]
  decide

end Elf

end FlowRecovery
