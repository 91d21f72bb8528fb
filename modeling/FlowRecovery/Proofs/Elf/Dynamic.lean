/-
The values of dynamic relocations.

A dynamic record asks for its addend, and an absolute one for the address of its symbol and the
addend.  A record without an addend of its own has it at its site.  Records that are relative
are taken over so; absolute ones are taken over as if a missing addend were zero.

* `relocations_foldl_dynamicLink` — each record yields at most one relocation, whatever came before
  (`File.recorded?`);
* `recorded?_relative`, `recorded?_absolute` — what that relocation is;
* `File.dynamic_values_iff` — when the values are the ones asked for.
-/
import FlowRecovery.Image.Elf.Load
import FlowRecovery.Proofs.Image.Bytes

namespace FlowRecovery.Elf

/-- The addend of a record: its own, or else the pointer that the file has at its site. -/
def Reloc.AddendIn (r : Reloc) (sections : List Section) (width : Nat) (a : Word) : Prop :=
  match r.addend with
  | some own => a = own.toUInt64
  | none => Stores sections r.offset width a

theorem Reloc.addendIn_of_some {r : Reloc} {own : Int64} (h : r.addend = some own)
    {sections : List Section} {width : Nat} {a : Word} :
    r.AddendIn sections width a ↔ a = own.toUInt64 := by
  simp only [AddendIn, h]

theorem Reloc.addendIn_of_none {r : Reloc} (h : r.addend = none) {sections : List Section}
    {width : Nat} {a : Word} : r.AddendIn sections width a ↔ Stores sections r.offset width a := by
  simp only [AddendIn, h]

/-- The record refers to a symbol that is defined, at an address. -/
def File.Defines (f : File) (r : Reloc) (address : Addr) : Prop :=
  ∃ symbol, f.dynamicSymbols[r.symbol]? = some symbol ∧ symbol.sect ≠ 0 ∧ symbol.value = address

/-- The relocation that a record yields. -/
def File.recorded? (f : File) (arch : Arch) (sections : List Section) (r : Reloc) :
    Option Relocation :=
  (f.dynamicLink arch sections {} r).relocations.head?

variable {f : File} {arch : Arch} {sections : List Section} {r : Reloc}

/-- What a record yields does not depend on the records before. -/
theorem relocations_dynamicLink (l : DynamicLinks) :
    (f.dynamicLink arch sections l r).relocations =
      l.relocations ++ (f.recorded? arch sections r).toList := by
  rw [File.recorded?, File.dynamicLink, File.dynamicLink]
  split
  · split
    · rfl
    · split
      · rfl
      · exact (List.append_nil _).symm
  · split
    · split
      · exact (List.append_nil _).symm
      · split
        · split
          · exact (List.append_nil _).symm
          · split <;> exact (List.append_nil _).symm
        · rfl
    · exact (List.append_nil _).symm

theorem relocations_foldl_dynamicLink (records : List Reloc) (l : DynamicLinks) :
    (records.foldl (f.dynamicLink arch sections) l).relocations =
      l.relocations ++ records.filterMap (f.recorded? arch sections) := by
  induction records generalizing l with
  | nil => exact (List.append_nil _).symm
  | cons r records ih =>
    rw [List.foldl_cons, ih, relocations_dynamicLink, List.filterMap_cons, List.append_assoc]
    cases f.recorded? arch sections r <;> rfl

/-- A relative record is taken over if and only if it has an addend, which is then the value. -/
theorem recorded?_relative (hr : r.type = 8) (a : Word) :
    r.AddendIn sections arch.pointerSize a ↔
      ∃ e, f.recorded? arch sections r = some e ∧ e.site = r.offset ∧ e.value = a := by
  have hwidth : arch.pointerSize ≤ 8 := by cases arch <;> decide
  rw [File.recorded?, File.dynamicLink, if_pos hr]
  cases haddend : r.addend with
  | some own =>
    rw [Reloc.addendIn_of_some haddend]
    have hvalue : (0 : Word) + own.toUInt64 = own.toUInt64 := UInt64.zero_add _
    constructor
    · rintro rfl
      exact ⟨_, rfl, rfl, hvalue⟩
    · rintro ⟨e, he, -, rfl⟩
      rw [← Option.some.inj he]
      exact hvalue
  | none =>
    rw [Reloc.addendIn_of_none haddend, ← storedValue?_eq_some hwidth]
    cases hstored : storedValue? sections r.offset arch.pointerSize with
    | some value =>
      have hvalue : value + (0 : Int64).toUInt64 = value := UInt64.add_zero _
      constructor
      · intro h
        obtain rfl := Option.some.inj h
        exact ⟨_, rfl, rfl, hvalue⟩
      · rintro ⟨e, he, -, rfl⟩
        rw [← Option.some.inj he]
        exact congrArg some hvalue.symm
    | none =>
      constructor
      · intro h
        cases h
      · rintro ⟨e, he, -⟩
        cases he

/-- An absolute record for a defined symbol is always taken over; an addend at its site does not
count. -/
theorem recorded?_absolute (hr : r.type = 1) {address : Addr} (h : f.Defines r address) :
    ∃ e, f.recorded? arch sections r = some e ∧ e.site = r.offset ∧
      e.value = address + (r.addend.getD 0).toUInt64 := by
  obtain ⟨symbol, hsymbol, hsect, rfl⟩ := h
  rw [File.recorded?, File.dynamicLink, if_neg (by omega), if_pos (by omega)]
  simp only [hsymbol, if_neg hsect]
  exact ⟨_, rfl, rfl, rfl⟩

theorem relocations_of_load {b : Bytes} {image : Image} (h : f.load b = .ok image)
    (hdynamic : f.relocatable = false) :
    image.relocations = bySite
      (f.dynamicRelocs.filterMap (f.recorded? image.arch image.sections)) := by
  obtain ⟨arch, -, h⟩ := Checked.bind_eq_ok.mp h
  rw [if_neg (by rw [hdynamic]; exact Bool.false_ne_true)] at h
  obtain ⟨placed, -, h⟩ := Checked.bind_eq_ok.mp h
  obtain rfl := Except.ok.inj h
  exact congrArg bySite (relocations_foldl_dynamicLink f.dynamicRelocs {})

/-- **The values of dynamic relocations.**  The relocations of an executable are those of its
records.  A relative record is taken over with its addend, be it the record's own or the pointer
at its site.  An absolute record for a defined symbol is taken over with the address of the
symbol and its own addend.  So all absolute records have the values that they ask for if and only
if those without an addend of their own have no other pointer than zero at their sites. -/
theorem File.dynamic_values_iff {f : File} {b : Bytes} {image : Image}
    (hload : f.load b = .ok image) (hdynamic : f.relocatable = false) :
    image.relocations.Perm
        (f.dynamicRelocs.filterMap (f.recorded? image.arch image.sections)) ∧
      (∀ r ∈ f.dynamicRelocs, r.type = 8 → ∀ a,
        r.AddendIn image.sections image.arch.pointerSize a ↔
          ∃ e, f.recorded? image.arch image.sections r = some e ∧ e.site = r.offset ∧
            e.value = a) ∧
      (∀ r ∈ f.dynamicRelocs, r.type = 1 → ∀ address, f.Defines r address →
        ∃ e, f.recorded? image.arch image.sections r = some e ∧ e.site = r.offset ∧
          e.value = address + (r.addend.getD 0).toUInt64) ∧
      ((∀ r ∈ f.dynamicRelocs, r.type = 1 → ∀ address, f.Defines r address →
          ∀ a, r.AddendIn image.sections image.arch.pointerSize a →
            ∀ e ∈ f.recorded? image.arch image.sections r, e.value = address + a) ↔
        ∀ r ∈ f.dynamicRelocs, r.type = 1 → ∀ address, f.Defines r address → r.addend = none →
          ∀ v, Stores image.sections r.offset image.arch.pointerSize v → v = 0) := by
  refine ⟨?_, fun r _ hr => recorded?_relative hr, fun r _ hr a h => recorded?_absolute hr h, ?_⟩
  · rw [relocations_of_load hload hdynamic]
    exact List.mergeSort_perm _ _
  · refine forall_congr' fun r => forall_congr' fun _ => forall_congr' fun hr =>
      forall_congr' fun address => forall_congr' fun hdef => ?_
    obtain ⟨e, he, -, hvalue⟩ :
        ∃ e, f.recorded? image.arch image.sections r = some e ∧ e.site = r.offset ∧
          e.value = address + (r.addend.getD 0).toUInt64 := recorded?_absolute hr hdef
    rw [he]
    cases haddend : r.addend with
    | some own =>
      simp only [Reloc.addendIn_of_some haddend]
      rw [haddend] at hvalue
      constructor
      · intro _ hnone
        cases hnone
      · rintro - a rfl e' he'
        rw [← Option.some.inj he']
        exact hvalue
    | none =>
      simp only [Reloc.addendIn_of_none haddend]
      rw [haddend] at hvalue
      have hzero : e.value = address := hvalue.trans (UInt64.add_zero address)
      constructor
      · intro h _ v hv
        have hsum := h v hv e rfl
        rw [hzero] at hsum
        exact UInt64.left_eq_add.mp hsum
      · intro h a ha e' he'
        rw [← Option.some.inj he', hzero, h trivial a ha]
        exact (UInt64.add_zero address).symm

/-- An executable with a data section at `0x2000` that starts with one symbol. -/
def File.pointing (records : List Reloc) : File :=
  { machine := 3, type := 3, entry := 0
    sections :=
      [{ name := 0, type := 1, flags := 3, address := 0x2000, offset := 0, size := 12, link := 0
         info := 0, align := 4, entrySize := 0 }]
    dynamicSymbols := [⟨0, 0, 0⟩, ⟨0, 1, 0x2000⟩]
    dynamicRelocs := records }

/-- The contents of that section: the numbers 0, 4 and 0x2008. -/
def pointingBytes : Bytes := #[0, 0, 0, 0, 4, 0, 0, 0, 8, 0x20, 0, 0]

theorem load_pointing (records : List Reloc) :
    ∃ image, (File.pointing records).load pointingBytes = .ok image ∧ image.arch = .x86 ∧
      image.sections =
        [{ name := "", address := 0x2000, size := 12, executable := false, writable := true
           data := some pointingBytes }] :=
  ⟨_, rfl, rfl, rfl⟩

/-- A relative record whose addend is at its site, an absolute one with an addend below zero, and
one at the site of a zero all have the values that they ask for. -/
theorem File.dynamic_values_pointing :
    let f := File.pointing [⟨0x2008, 0, 8, none⟩, ⟨0x2004, 1, 1, some (-4)⟩, ⟨0x2000, 1, 1, none⟩]
    ∃ image, f.load pointingBytes = .ok image ∧
      (image.relocations.map Relocation.value).Perm [0x2008, 0x1ffc, 0x2000] ∧
      ∀ r ∈ f.dynamicRelocs, r.type = 1 → ∀ address, f.Defines r address →
        ∀ a, r.AddendIn image.sections image.arch.pointerSize a →
          ∀ e ∈ f.recorded? image.arch image.sections r, e.value = address + a := by
  intro f
  obtain ⟨image, hload, harch, hsections⟩ := load_pointing f.dynamicRelocs
  obtain ⟨hperm, -, -, hiff⟩ := File.dynamic_values_iff hload rfl
  rw [harch, hsections] at hperm hiff
  refine ⟨image, hload, (hperm.map Relocation.value).trans ?_, ?_⟩
  · exact List.Perm.of_eq (by decide +kernel)
  · rw [harch, hsections]
    refine hiff.mpr ?_
    intro r hr htype address _ hnone v hv
    have hzero : ∀ r ∈ f.dynamicRelocs, r.type = 1 → r.addend = none → storedValue?
        [{ name := "", address := 0x2000, size := 12, executable := false, writable := true
           data := some pointingBytes }] r.offset Arch.x86.pointerSize = some 0 := by
      decide +kernel
    rw [← storedValue?_eq_some (by decide), hzero r hr htype hnone] at hv
    exact (Option.some.inj hv).symm

/-- An absolute record without an addend of its own asks for the symbol and the pointer at its
site, and gets the symbol only. -/
theorem File.implicit_addend_lost :
    let r : Reloc := ⟨0x2004, 1, 1, none⟩
    let f := File.pointing [r]
    ∃ image, f.load pointingBytes = .ok image ∧ f.Defines r 0x2000 ∧
      r.AddendIn image.sections image.arch.pointerSize 4 ∧
      ∃ e ∈ image.relocations, f.recorded? image.arch image.sections r = some e ∧
        e.value ≠ 0x2000 + 4 := by
  intro r f
  obtain ⟨image, hload, harch, hsections⟩ := load_pointing [r]
  have hstored : Stores image.sections 0x2004 image.arch.pointerSize 4 := by
    rw [harch, hsections, ← storedValue?_eq_some (by decide)]
    decide +kernel
  have hrecorded : f.recorded? image.arch image.sections r = some ⟨0x2004, 0x2000, 4, 0⟩ := by
    rw [harch, hsections]
    decide +kernel
  have hmem : (⟨0x2004, 0x2000, 4, 0⟩ : Relocation) ∈ image.relocations := by
    rw [relocations_of_load hload rfl, bySite, List.mem_mergeSort, List.mem_filterMap]
    exact ⟨r, List.mem_singleton.mpr rfl, hrecorded⟩
  exact ⟨image, hload, ⟨⟨0, 1, 0x2000⟩, rfl, by decide, rfl⟩, hstored, _, hmem, hrecorded,
    by decide⟩

end FlowRecovery.Elf
