/-
Strings in an image.

A string is a run of printable characters with a zero behind it, every character as one byte or
as a byte and a zero.  `looksLikeString` reads a section in chunks and stops as soon as it knows
the answer.  If sections are apart this is no different from looking at the whole rest of the
section at once, and any other way to cut the section into pieces gives the same answer.

* `foldPieces_eq` — reading in pieces is reading the rest of the section;
* `answered_narrow`, `answered_wide` — what the two scans look for;
* `looksLikeString_exact` — strings are found where they are.
-/
import FlowRecovery.Image.Strings
import FlowRecovery.Proofs.Image.Sections

namespace FlowRecovery

/-! ### The rest of a section -/

/-- The bytes of the section from an address up to its limit. -/
def Section.bytesToLimit (s : Section) (start : Nat) : List UInt8 :=
  (List.range' start (s.limit.toNat - start)).map fun n => s.byteAt (n - s.address.toNat)

namespace Section

variable {s : Section} {start : Nat}

theorem bytesToLimit_of_le (h : s.limit.toNat ≤ start) : s.bytesToLimit start = [] := by
  rw [bytesToLimit, Nat.sub_eq_zero_of_le h]
  rfl

theorem toList_bytesFrom (h : s.address.toNat ≤ start) (n : Nat) :
    (s.bytesFrom (start - s.address.toNat) n).toList =
      (List.range' start n).map fun n => s.byteAt (n - s.address.toNat) := by
  refine List.ext_getElem (by simp [bytesFrom]) fun k hk _ => ?_
  simp only [bytesFrom, Array.toList_ofFn, List.getElem_ofFn, List.getElem_map,
    List.getElem_range', Nat.one_mul]
  congr 1
  omega

/-- The rest of the section is its next piece, however long, and what stands behind it. -/
theorem bytesToLimit_eq_append (h : s.address.toNat ≤ start) (n : Nat) :
    s.bytesToLimit start =
      (s.bytesFrom (start - s.address.toNat) (min (s.limit.toNat - start) n)).toList ++
        s.bytesToLimit (start + n) := by
  rw [toList_bytesFrom h, bytesToLimit, bytesToLimit]
  rcases Nat.le_total (s.limit.toNat - start) n with hle | hle
  · have hnone : s.limit.toNat - (start + n) = 0 := by omega
    rw [Nat.min_eq_left hle, hnone]
    simp
  · have hsum : s.limit.toNat - start = n + (s.limit.toNat - (start + n)) := by omega
    rw [Nat.min_eq_right hle, ← List.map_append, List.range'_append_1, ← hsum]

end Section

namespace Image

/-- The bytes from an address up to the limit of its section; none if no section covers it. -/
def bytesToLimit (i : Image) (a : Addr) : List UInt8 :=
  match i.sectionAt? a with
  | some s => s.bytesToLimit a.toNat
  | none => []

/-- Up to the limit of a section everything can be read. -/
theorem SectionsApart.read_eq {i : Image} (h : i.SectionsApart) {s : Section}
    (hs : s ∈ i.sections) {start n : Nat} (haddress : s.address.toNat ≤ start)
    (hlt : start < s.limit.toNat) (hn : start + n ≤ s.limit.toNat) :
    i.read (UInt64.ofNat start) n = .ok (s.bytesFrom (start - s.address.toNat) n) := by
  have hstart : (UInt64.ofNat start).toNat = start :=
    UInt64.toNat_ofNat_of_lt' (Nat.lt_trans hlt s.limit.toNat_lt)
  have hcontains : s.contains (UInt64.ofNat start) = true := by
    rw [Section.contains_iff, hstart]
    exact ⟨haddress, hlt⟩
  have hoffset : (UInt64.ofNat start - s.address).toNat = start - s.address.toNat := by
    rw [UInt64.toNat_sub_of_le, hstart]
    rw [UInt64.le_iff_toNat_le, hstart]
    exact haddress
  have hsize := s.toNat_limit_le
  have hreadable : i.readable? (UInt64.ofNat start) n = some s := by
    rw [readable?, h.sectionAt?_eq hs hcontains, Option.filter_some, if_pos]
    rw [hoffset, decide_eq_true_eq]
    omega
  rw [read, hreadable]
  show Except.ok (s.bytesFrom (UInt64.ofNat start - s.address).toNat n) = _
  rw [hoffset]

/-! ### Reading in pieces -/

variable {σ : Type} {step : σ → UInt8 → Except Bool σ}

theorem foldBytes_append (step : σ → UInt8 → Except Bool σ) (state : σ) (l m : List UInt8) :
    foldBytes step state (l ++ m) =
      match foldBytes step state l with
      | .error answer => .error answer
      | .ok state => foldBytes step state m := by
  induction l generalizing state with
  | nil => rfl
  | cons b l ih =>
    rw [List.cons_append, foldBytes, foldBytes]
    cases step state b with
    | error answer => rfl
    | ok state => exact ih state

/-- Run a step over the bytes from `start` up to `limit` until it answers or a piece cannot be
read; the length of a piece depends on where it starts. -/
def foldPieces (i : Image) (limit : Nat) (length : Nat → Nat) (hlength : ∀ n, 0 < length n)
    (step : σ → UInt8 → Except Bool σ) (start : Nat) (state : σ) : Except Bool σ :=
  if start < limit then
    match i.read (UInt64.ofNat start) (min (limit - start) (length start)) with
    | .error _ => .ok state
    | .ok piece =>
      match foldBytes step state piece.toList with
      | .error answer => .error answer
      | .ok state => foldPieces i limit length hlength step (start + length start) state
  else .ok state
  termination_by limit - start
  decreasing_by
    have := hlength start
    omega

/-- Chunks are pieces of one length. -/
theorem foldChunks_eq_foldPieces (i : Image) (limit start : Nat) (state : σ) :
    i.foldChunks limit step start state =
      i.foldPieces limit (fun _ => chunkLength) (fun _ => by decide) step start state := by
  fun_induction foldChunks i limit step start state with
  | case1 start state hlt e hread => rw [foldPieces, if_pos hlt, hread]
  | case2 start state hlt chunk hread answer hanswer =>
    rw [foldPieces, if_pos hlt, hread]
    simp only [hanswer]
  | case3 start state hlt chunk hread state' hstate ih =>
    rw [foldPieces, if_pos hlt, hread]
    simp only [hstate]
    exact ih
  | case4 start state hlt => rw [foldPieces, if_neg hlt]

/-- Reading in pieces is reading the rest of the section, wherever it is cut. -/
theorem foldPieces_eq {i : Image} (h : i.SectionsApart) {s : Section} (hs : s ∈ i.sections)
    {length : Nat → Nat} (hlength : ∀ n, 0 < length n) (state : σ) {start : Nat}
    (haddress : s.address.toNat ≤ start) :
    i.foldPieces s.limit.toNat length hlength step start state =
      foldBytes step state (s.bytesToLimit start) := by
  rw [foldPieces]
  split
  · next hlt =>
    have hn : start + min (s.limit.toNat - start) (length start) ≤ s.limit.toNat := by omega
    rw [h.read_eq hs haddress hlt hn, Section.bytesToLimit_eq_append haddress (length start),
      foldBytes_append]
    dsimp only
    -- Both stop in this piece, or go on behind it with the same state.
    split
    · rfl
    · next state' _ => exact foldPieces_eq h hs hlength state' (by omega)
  · next hlt => rw [Section.bytesToLimit_of_le (Nat.le_of_not_lt hlt), foldBytes]
  termination_by s.limit.toNat - start
  decreasing_by
    have := hlength start
    omega

/-! ### What the scans look for -/

/-- A character as one byte. -/
def narrow (c : UInt8) : List UInt8 := [c]

/-- A character as a little-endian unit of two bytes. -/
def wide (c : UInt8) : List UInt8 := [c, 0]

/-- The bytes start with at least so many printable characters and a zero behind them. -/
def StartString (encode : UInt8 → List UInt8) (least : Nat) (bytes : List UInt8) : Prop :=
  ∃ run rest : List UInt8, least ≤ run.length ∧ (∀ c ∈ run, printable c = true) ∧
    bytes = run.flatMap encode ++ encode 0 ++ rest

namespace StartString

variable {encode : UInt8 → List UInt8} {least : Nat} {bytes : List UInt8}

/-- The bytes start with the code of a character. -/
theorem exists_unit (h : StartString encode least bytes) : ∃ c rest, bytes = encode c ++ rest := by
  obtain ⟨run, rest, -, -, rfl⟩ := h
  cases run with
  | nil => exact ⟨0, rest, rfl⟩
  | cons c run =>
    exact ⟨c, run.flatMap encode ++ encode 0 ++ rest, by simp [List.flatMap_cons]⟩

/-- After one character, a string starts if that is the zero and enough went before, or if it is
printable and a string starts behind it. -/
theorem append_iff {b : UInt8} {size : Nat} (hsize : ∀ c, (encode c).length = size)
    (hinj : ∀ c d, encode c = encode d → c = d) :
    StartString encode least (encode b ++ bytes) ↔
      (b = 0 ∧ least = 0) ∨ (printable b = true ∧ StartString encode (least - 1) bytes) := by
  constructor
  · rintro ⟨run, rest, hleast, hrun, heq⟩
    cases run with
    | nil =>
      rw [List.flatMap_nil, List.nil_append] at heq
      obtain ⟨hb, -⟩ := List.append_inj heq ((hsize b).trans (hsize 0).symm)
      exact Or.inl ⟨hinj b 0 hb, Nat.le_zero.mp hleast⟩
    | cons c run =>
      rw [List.flatMap_cons, List.append_assoc, List.append_assoc] at heq
      obtain ⟨hb, hbytes⟩ := List.append_inj heq ((hsize b).trans (hsize c).symm)
      obtain rfl := hinj b c hb
      obtain ⟨hb, hrun⟩ := List.forall_mem_cons.mp hrun
      rw [List.length_cons] at hleast
      exact Or.inr ⟨hb, run, rest, by omega, hrun, by rw [hbytes, List.append_assoc]⟩
  · rintro (⟨rfl, rfl⟩ | ⟨hb, run, rest, hleast, hrun, rfl⟩)
    · exact ⟨[], bytes, Nat.le_refl 0, nofun, rfl⟩
    · refine ⟨b :: run, rest, ?_, List.forall_mem_cons.mpr ⟨hb, hrun⟩, ?_⟩
      · rw [List.length_cons]
        omega
      · rw [List.flatMap_cons, List.append_assoc, List.append_assoc, List.append_assoc]

theorem narrow_cons {b : UInt8} : StartString narrow least (b :: bytes) ↔
    (b = 0 ∧ least = 0) ∨ (printable b = true ∧ StartString narrow (least - 1) bytes) :=
  append_iff (fun _ => rfl) fun _ _ h => (List.cons.inj h).1

theorem wide_cons {b : UInt8} : StartString wide least (b :: 0 :: bytes) ↔
    (b = 0 ∧ least = 0) ∨ (printable b = true ∧ StartString wide (least - 1) bytes) :=
  append_iff (fun _ => rfl) fun _ _ h => (List.cons.inj h).1

end StartString

theorem answered_narrow {least count : Nat} {bytes : List UInt8} :
    answered (foldBytes (narrowStep least) count bytes) = true ↔
      StartString narrow (least - count) bytes := by
  induction bytes generalizing count with
  | nil => exact iff_of_false nofun fun h => nomatch h.exists_unit
  | cons b bytes ih =>
    rw [StartString.narrow_cons, foldBytes, narrowStep]
    by_cases hzero : b = 0
    · subst hzero
      have hprint : printable 0 ≠ true := by decide
      simp [answered, hprint, Nat.sub_eq_zero_iff_le]
    · by_cases hprint : printable b = true
      · simp only [hzero, hprint, if_false, if_true, false_and, false_or, true_and]
        rw [ih, Nat.sub_add_eq]
      · simp [answered, hzero, hprint]

theorem answered_wide (least count : Nat) : (bytes : List UInt8) →
    (answered (foldBytes (wideStep least) (count, none) bytes) = true ↔
      StartString wide (least - count) bytes)
  | [] => iff_of_false nofun fun h => nomatch h.exists_unit
  | [_] => iff_of_false nofun fun h => nomatch h.exists_unit
  | low :: high :: bytes => by
    simp only [foldBytes, wideStep]
    by_cases hhigh : high = 0
    · subst hhigh
      rw [StartString.wide_cons]
      by_cases hzero : low = 0
      · subst hzero
        have hprint : printable 0 ≠ true := by decide
        simp [answered, hprint, Nat.sub_eq_zero_iff_le]
      · by_cases hprint : printable low = true
        · simp only [hzero, hprint, if_false, if_true, false_and, false_or, true_and]
          rw [answered_wide least (count + 1) bytes, Nat.sub_add_eq]
        · simp [answered, hzero, hprint]
    · refine iff_of_false (by simp [answered, hhigh]) fun h => ?_
      obtain ⟨c, rest, heq⟩ := h.exists_unit
      cases heq
      exact hhigh rfl

/-! ### Strings -/

/-- Whether a string of at least `least` characters starts at the address, for a reader that
cuts the section into other pieces. -/
def looksLikeStringIn (i : Image) (length : Nat → Nat) (hlength : ∀ n, 0 < length n) (a : Addr)
    (least : Nat) : Bool :=
  let limit := (i.sectionLimit a).toNat
  answered (i.foldPieces limit length hlength (narrowStep least) a.toNat 0) ||
    answered (i.foldPieces limit length hlength (wideStep least) a.toNat (0, none))

theorem looksLikeString_eq_in (i : Image) (a : Addr) (least : Nat) : i.looksLikeString a least =
    i.looksLikeStringIn (fun _ => chunkLength) (fun _ => by decide) a least := by
  simp only [looksLikeString, looksLikeStringIn, foldChunks_eq_foldPieces]

theorem SectionsApart.foldPieces_sectionLimit {i : Image} (h : i.SectionsApart)
    {length : Nat → Nat} (hlength : ∀ n, 0 < length n) (a : Addr) (state : σ) :
    i.foldPieces (i.sectionLimit a).toNat length hlength step a.toNat state =
      foldBytes step state (i.bytesToLimit a) := by
  cases hs : i.sectionAt? a with
  | some s =>
    have haddress := (Section.contains_iff.mp (contains_of_sectionAt? hs)).1
    simp only [sectionLimit, bytesToLimit, hs]
    exact foldPieces_eq h (List.mem_of_find?_eq_some hs) hlength state haddress
  | none =>
    simp only [sectionLimit, bytesToLimit, hs]
    rw [foldPieces, if_neg (Nat.lt_irrefl _), foldBytes]

theorem SectionsApart.looksLikeStringIn_iff {i : Image} (h : i.SectionsApart)
    {length : Nat → Nat} (hlength : ∀ n, 0 < length n) (a : Addr) (least : Nat) :
    i.looksLikeStringIn length hlength a least = true ↔
      StartString narrow least (i.bytesToLimit a) ∨ StartString wide least (i.bytesToLimit a) := by
  simp only [looksLikeStringIn, h.foldPieces_sectionLimit, Bool.or_eq_true, answered_narrow,
    answered_wide, Nat.sub_zero]

/-- Strings are found where they are: the rest of the section starts with enough printable
characters and a zero, in one of the two codes.  Where the chunks fall does not matter. -/
theorem SectionsApart.looksLikeString_exact {i : Image} (h : i.SectionsApart) (a : Addr)
    (least : Nat) :
    (i.looksLikeString a least = true ↔
      StartString narrow least (i.bytesToLimit a) ∨ StartString wide least (i.bytesToLimit a)) ∧
    ∀ (length : Nat → Nat) (hlength : ∀ n, 0 < length n),
      i.looksLikeStringIn length hlength a least = i.looksLikeString a least := by
  rw [looksLikeString_eq_in]
  refine ⟨h.looksLikeStringIn_iff _ a least, fun length hlength => ?_⟩
  rw [Bool.eq_iff_iff, h.looksLikeStringIn_iff, h.looksLikeStringIn_iff]

/-- A long string, and a short one of wide characters at the end of its section. -/
def twoStrings : Image :=
  { arch := .x86_64
    sections :=
      [{ name := ".rodata", address := 0x1000, size := 0x140, executable := false
         writable := false, data := some (Array.replicate 300 0x61) },
       { name := ".data", address := 0x2001, size := 6, executable := false
         writable := true, data := some #[0x68, 0, 0x69, 0] }] }

theorem sectionsApart_twoStrings : twoStrings.SectionsApart := by
  refine List.pairwise_pair.mpr fun a => ?_
  rintro ⟨hs, ht⟩
  have hlimit : a.toNat < 0x1140 := (Section.contains_iff.mp hs).2
  have haddress : 0x2001 ≤ a.toNat := (Section.contains_iff.mp ht).1
  omega

/-- Both are found, the long one over the border of a chunk.  The short one is too short for
three characters. -/
theorem looksLikeString_twoStrings :
    twoStrings.looksLikeString 0x1000 300 = true ∧
    twoStrings.looksLikeString 0x2001 2 = true ∧
    twoStrings.looksLikeString 0x2001 3 = false ∧
    twoStrings.looksLikeStringIn (fun n => n + 1) (fun n => n.succ_pos) 0x2001 2 = true := by
  have hexact := fun a least => sectionsApart_twoStrings.looksLikeString_exact a least
  have hlong : twoStrings.bytesToLimit 0x1000 =
      (List.replicate 300 0x61).flatMap narrow ++ narrow 0 ++ List.replicate 19 0 := by
    decide +kernel
  have hshort : twoStrings.bytesToLimit 0x2001 = [0x68, 0x69].flatMap wide ++ wide 0 ++ [] := by
    decide +kernel
  have hfound : twoStrings.looksLikeString 0x2001 2 = true :=
    (hexact 0x2001 2).1.mpr
      (.inr ⟨[0x68, 0x69], [], Nat.le_refl 2, List.all_eq_true.mp rfl, hshort⟩)
  have hprintable : ∀ c ∈ List.replicate 300 (0x61 : UInt8), printable c = true := by
    intro c hc
    rw [List.eq_of_mem_replicate hc]
    rfl
  have hlongest : StartString narrow 300 (twoStrings.bytesToLimit 0x1000) :=
    ⟨_, _, Nat.le_of_eq List.length_replicate.symm, hprintable, hlong⟩
  refine ⟨(hexact 0x1000 300).1.mpr (.inl hlongest), hfound, ?_, ?_⟩
  · have hzero : printable 0 = false := by decide
    rw [Bool.eq_false_iff, Ne, (hexact 0x2001 3).1, hshort]
    simp [wide, StartString.narrow_cons, StartString.wide_cons, hzero]
  · rw [(hexact 0x2001 2).2, hfound]

end Image

end FlowRecovery
