/-
The text of a JSON value reads back as the value.

The printer puts the text of a value in front of a rest, and the reader gives back the
value and that rest.  What a rest may start with matters for numbers alone, which end
where no digit, point or exponent follows (`endsNumber`).

* `readString_stringTail` — strings, with every class of escapes;
* `readNumber_intChars` — whole numbers;
* `readValue_prettyChars` — values, by recursion over the value; the bound on the nesting
  counts characters, so it is compared with lengths of texts;
* `parse?_pretty` — whole texts.

Fractions and unreadable values are not written as they are, and are left out (`plain`).
-/
import FlowRecovery.Json.Reader
import FlowRecovery.Proofs.Assembly.Labels
import Mathlib.Data.List.TakeDrop

namespace FlowRecovery.Json

/-! ### Strings -/

theorem hexQuad?_digitChar {n : Nat} (h : n < 0x20) :
    hexQuad? '0' '0' (Nat.digitChar (n / 16)) (Nat.digitChar (n % 16)) = some n := by
  have hhigh : Text.digitValue? 16 (Nat.digitChar (n / 16)) = some (n / 16) :=
    Text.digitValue?_digitChar (by omega)
  have hlow : Text.digitValue? 16 (Nat.digitChar (n % 16)) = some (n % 16) :=
    Text.digitValue?_digitChar (by omega)
  have hzero : Text.digitValue? 16 '0' = some 0 := by decide
  simp only [hexQuad?, Text.readOn, hzero, hhigh, hlow, Option.bind_some, Option.some.injEq]
  omega

/-- A character that stands for itself is read as it is. -/
theorem readString_plain {c : Char} (hquote : c ≠ '"') (hslash : c ≠ '\\') (hc : ¬ c.toNat < 0x20)
    (acc : List Char) (sound : Bool) (l : List Char) :
    readString acc sound (c :: l) = readString (c :: acc) sound l := by
  rw [readString.eq_def]
  split
  · next heq => cases heq
  · next heq => exact absurd (List.cons.inj heq).1 hquote
  · next heq => exact absurd (List.cons.inj heq).1 hslash
  · next heq => exact absurd (List.cons.inj heq).1 hslash
  · next heq =>
    obtain ⟨rfl, rfl⟩ := List.cons.inj heq
    rw [if_neg (by simp [hc, hslash])]

/-- An escaped character is read as the character. -/
theorem readString_escapeChar (c : Char) (acc : List Char) (sound : Bool) (l : List Char) :
    readString acc sound (escapeChar c ++ l) = readString (c :: acc) sound l := by
  -- The cases are those of the escapes, in the order in which they are tried.
  unfold escapeChar
  split
  · next h => subst h; rfl
  split
  · next h => subst h; rfl
  split
  · next h => subst h; rfl
  split
  · next h => subst h; rfl
  split
  · next h => subst h; rfl
  split
  · next h => subst h; rfl
  split
  · next h => subst h; rfl
  split
  · next hlt =>
    show readString acc sound ('\\' :: 'u' :: '0' :: '0' :: _ :: _ :: l) = _
    rw [readString.eq_def]
    simp only [hexQuad?_digitChar hlt]
    rw [if_neg (by omega), if_neg (by omega), Char.ofNat_toNat]
  · next hquote hslash _ _ _ _ _ hlt => exact readString_plain hquote hslash hlt acc sound l

theorem readString_stringTail (cs acc rest : List Char) :
    readString acc true (stringTail rest cs) =
      some (some (String.ofList (acc.reverse ++ cs)), rest) := by
  induction cs generalizing acc with
  | nil =>
    show some (some (String.ofList acc.reverse), rest) = _
    rw [List.append_nil]
  | cons c cs ih =>
    rw [stringTail, readString_escapeChar, ih]
    simp

theorem readString_of_stringChars (s : String) (rest : List Char) :
    readString [] true (stringTail rest s.toList) = some (some s, rest) := by
  rw [readString_stringTail]
  simp

/-! ### Numbers -/

theorem isDigit_of_mem_toDigits {c : Char} {n : Nat} (h : c ∈ Nat.toDigits 10 n) :
    isDigit c = true := by
  have hc := Nat.isDigit_of_mem_toDigits (by omega) (by omega) h
  simpa [isDigit, Char.isDigit, Char.le_def] using hc

theorem exists_toDigits (n : Nat) : ∃ d ds, Nat.toDigits 10 n = d :: ds ∧ isDigit d = true := by
  cases hdigits : Nat.toDigits 10 n with
  | nil => exact absurd hdigits (List.ne_nil_of_length_pos Nat.length_toDigits_pos)
  | cons d ds => exact ⟨d, ds, rfl, isDigit_of_mem_toDigits (hdigits ▸ List.mem_cons_self)⟩

/-- The digits of a number are not padded with zeros. -/
theorem paddedWithZero_toDigits (n : Nat) : paddedWithZero (Nat.toDigits 10 n) = false := by
  -- The first digit is zero only if the number is.
  have hhead : ∀ n, 0 < n → (Nat.toDigits 10 n).head? ≠ some '0' := by
    intro n hn
    induction n using Nat.strongRecOn with
    | _ n ih =>
      by_cases hlt : n < 10
      · have hall : ∀ d : Fin 10, 0 < d.val → some (Nat.digitChar d) ≠ some '0' := by decide
        rw [Nat.toDigits_of_lt_base hlt]
        exact hall ⟨n, hlt⟩ hn
      · rw [Nat.toDigits_of_base_le (by omega) (by omega),
          List.head?_append_of_ne_nil _ (List.ne_nil_of_length_pos Nat.length_toDigits_pos)]
        exact ih (n / 10) (by omega) (by omega)
  by_cases hlt : n < 10
  · rw [Nat.toDigits_of_lt_base hlt]
    unfold paddedWithZero
    split
    · next heq => exact nomatch (List.cons.inj heq).2
    · rfl
  · unfold paddedWithZero
    split
    · next l heq => exact absurd (by rw [heq]; rfl) (hhead n (by omega))
    · rfl

/-- Whether a number in front of the text ends there. -/
def endsNumber : List Char → Bool
  | [] => true
  | c :: _ => !isDigit c && c != '.' && c != 'e' && c != 'E'

theorem readDigits_toDigits (n : Nat) {rest : List Char} (h : endsNumber rest = true) :
    readDigits (Nat.toDigits 10 n ++ rest) = some (Nat.toDigits 10 n, rest) := by
  have hdigits : ∀ c ∈ Nat.toDigits 10 n, isDigit c = true := fun c => isDigit_of_mem_toDigits
  have hrest : rest.takeWhile isDigit = [] ∧ rest.dropWhile isDigit = rest := by
    cases rest with
    | nil => exact ⟨rfl, rfl⟩
    | cons c rest =>
      simp only [endsNumber, Bool.and_eq_true, Bool.not_eq_true'] at h
      simp [h.1.1.1]
  have hspan : (Nat.toDigits 10 n ++ rest).span isDigit = (Nat.toDigits 10 n, rest) := by
    rw [List.span_eq_takeWhile_dropWhile, List.takeWhile_append_of_pos hdigits,
      List.dropWhile_append_of_pos hdigits, hrest.1, hrest.2, List.append_nil]
  rw [readDigits, hspan]
  split
  · next heq =>
    have hnil := (Prod.mk.inj heq).1
    exact absurd hnil (List.ne_nil_of_length_pos Nat.length_toDigits_pos)
  · next heq => rw [← heq]

theorem readFraction_of_endsNumber {rest : List Char} (h : endsNumber rest = true) :
    readFraction rest = some ([], rest) := by
  unfold readFraction
  split
  · simp [endsNumber] at h
  · rfl

theorem readExponent_of_endsNumber {rest : List Char} (h : endsNumber rest = true) :
    readExponent rest = some ([], rest) := by
  cases rest with
  | nil => rfl
  | cons c rest =>
    simp only [endsNumber, Bool.and_eq_true, bne_iff_ne] at h
    rw [readExponent.eq_def]
    exact if_neg (by simp [h.1.2, h.2])

theorem readMagnitude_toDigits (negative : Bool) (n : Nat) {rest : List Char}
    (h : endsNumber rest = true) :
    readMagnitude negative (Nat.toDigits 10 n ++ rest) = some (.int negative n, rest) := by
  simp [readMagnitude, readDigits_toDigits n h, paddedWithZero_toDigits,
    readFraction_of_endsNumber h, readExponent_of_endsNumber h, Nat.ofDigitChars_ten_toDigits]

theorem readNumber_intChars (negative : Bool) (n : Nat) {rest : List Char}
    (h : endsNumber rest = true) :
    readNumber (intChars negative n rest) = some (.int negative n, rest) := by
  cases negative with
  | true => exact readMagnitude_toDigits true n h
  | false =>
    show readNumber (Nat.toDigits 10 n ++ rest) = _
    unfold readNumber
    split
    · next heq =>
      -- The text starts with a digit, and so with no sign.
      obtain ⟨d, ds, hdigits, hd⟩ := exists_toDigits n
      rw [hdigits] at heq
      rw [(List.cons.inj heq).1] at hd
      cases hd
    · exact readMagnitude_toDigits false n h

/-! ### Values -/

mutual

/-- Whether the value is written as it is. -/
def plain : Json → Bool
  | .fraction _ => false
  | .unreadable => false
  | .arr items => plainItems items
  | .obj members => plainMembers members
  | _ => true

/-- Whether all items are written as they are. -/
def plainItems : List Json → Bool
  | [] => true
  | j :: js => plain j && plainItems js

/-- Whether all members are written as they are. -/
def plainMembers : List (String × Json) → Bool
  | [] => true
  | (_, j) :: ms => plain j && plainMembers ms

end

section Printer

variable (depth : Nat) (rest : List Char) (k : String) (j : Json) (js : List Json)
  (ms : List (String × Json))

theorem prettyChars_arr : prettyChars depth rest (.arr (j :: js)) =
    '[' :: newline (depth + 1) (prettyChars (depth + 1) (prettyItems depth rest js) j) := rfl

theorem prettyChars_obj : prettyChars depth rest (.obj ((k, j) :: ms)) =
    '{' :: newline (depth + 1) (stringChars k (':' :: ' ' ::
      prettyChars (depth + 1) (prettyMembers depth rest ms) j)) := rfl

theorem prettyItems_nil : prettyItems depth rest [] = newline depth (']' :: rest) := rfl

theorem prettyItems_cons : prettyItems depth rest (j :: js) =
    ',' :: newline (depth + 1) (prettyChars (depth + 1) (prettyItems depth rest js) j) := rfl

theorem prettyMembers_nil : prettyMembers depth rest [] = newline depth ('}' :: rest) := rfl

theorem prettyMembers_cons : prettyMembers depth rest ((k, j) :: ms) =
    ',' :: newline (depth + 1) (stringChars k (':' :: ' ' ::
      prettyChars (depth + 1) (prettyMembers depth rest ms) j)) := rfl

end Printer

theorem skipBlanks_of_not_isBlank {c : Char} (h : isBlank c = false) (l : List Char) :
    skipBlanks (c :: l) = c :: l :=
  List.dropWhile_cons_of_neg (by simp [h])

theorem skipBlanks_newline (depth : Nat) (l : List Char) :
    skipBlanks (newline depth l) = skipBlanks l := by
  have hblanks : ∀ c ∈ List.replicate (2 * depth) ' ', isBlank c = true := by
    intro c hc
    rw [List.eq_of_mem_replicate hc]
    decide
  exact List.dropWhile_append_of_pos hblanks

@[simp] theorem length_newline (depth : Nat) (l : List Char) :
    (newline depth l).length = l.length + 2 * depth + 1 := by
  simp only [newline, List.length_cons, List.length_append, List.length_replicate]
  omega

theorem length_lt_stringTail (rest cs : List Char) : rest.length < (stringTail rest cs).length := by
  induction cs with
  | nil => simp [stringTail]
  | cons c cs ih =>
    rw [stringTail, List.length_append]
    omega

theorem endsNumber_prettyItems (depth : Nat) (rest : List Char) (js : List Json) :
    endsNumber (prettyItems depth rest js) = true := by
  cases js <;> rfl

theorem endsNumber_prettyMembers (depth : Nat) (rest : List Char) (ms : List (String × Json)) :
    endsNumber (prettyMembers depth rest ms) = true := by
  cases ms <;> rfl

/-- The text of a value starts neither with a blank nor with the end of a list. -/
theorem exists_prettyChars {j : Json} (h : plain j = true) (depth : Nat) (rest : List Char) :
    ∃ c l, prettyChars depth rest j = c :: l ∧ isBlank c = false ∧ c ≠ ']' := by
  cases j with
  | null => exact ⟨_, _, rfl, by decide, by decide⟩
  | bool value => cases value <;> exact ⟨_, _, rfl, by decide, by decide⟩
  | int negative n =>
    cases negative with
    | true => exact ⟨_, _, rfl, by decide, by decide⟩
    | false =>
      obtain ⟨d, ds, hdigits, hd⟩ := exists_toDigits n
      refine ⟨d, ds ++ rest, ?_, ?_, ?_⟩
      · show Nat.toDigits 10 n ++ rest = _
        rw [hdigits, List.cons_append]
      · refine Bool.eq_false_iff.mpr fun hblank => ?_
        simp only [isBlank, Bool.or_eq_true, decide_eq_true_eq] at hblank
        rcases hblank with ((rfl | rfl) | rfl) | rfl <;> cases hd
      · rintro rfl
        cases hd
  | fraction text => cases h
  | str s => exact ⟨_, _, rfl, by decide, by decide⟩
  | arr items => cases items <;> exact ⟨_, _, rfl, by decide, by decide⟩
  | obj members => cases members <;> exact ⟨_, _, rfl, by decide, by decide⟩
  | unreadable => cases h

theorem skipBlanks_prettyChars {j : Json} (h : plain j = true) (depth : Nat) (rest : List Char) :
    skipBlanks (prettyChars depth rest j) = prettyChars depth rest j := by
  obtain ⟨c, l, hchars, hblank, -⟩ := exists_prettyChars h depth rest
  rw [hchars]
  exact skipBlanks_of_not_isBlank hblank l

theorem skipBlanks_stringChars (depth : Nat) (k : String) (l : List Char) :
    skipBlanks (newline depth (stringChars k l)) = stringChars k l := by
  rw [skipBlanks_newline]
  exact skipBlanks_of_not_isBlank (by decide) _

mutual

theorem length_lt_prettyChars (depth : Nat) (rest : List Char) :
    ∀ j, plain j = true → rest.length < (prettyChars depth rest j).length
  | .null, _ => Nat.lt_add_of_pos_right (k := 4) (by decide)
  | .bool true, _ => Nat.lt_add_of_pos_right (k := 4) (by decide)
  | .bool false, _ => Nat.lt_add_of_pos_right (k := 5) (by decide)
  | .int negative n, _ => by
    have hpos : 0 < (Nat.toDigits 10 n).length := Nat.length_toDigits_pos
    have hlen : (intChars false n rest).length = (Nat.toDigits 10 n).length + rest.length :=
      List.length_append
    cases negative with
    | true =>
      show rest.length < (intChars false n rest).length + 1
      omega
    | false =>
      show rest.length < (intChars false n rest).length
      omega
  | .str s, _ => Nat.lt_succ_of_lt (length_lt_stringTail rest s.toList)
  | .arr [], _ => Nat.lt_add_of_pos_right (k := 2) (by decide)
  | .arr (j :: js), h => by
    obtain ⟨hj, hjs⟩ := Bool.and_eq_true_iff.mp h
    have hfirst := length_lt_prettyChars (depth + 1) (prettyItems depth rest js) j hj
    have hothers := length_lt_prettyItems depth rest js hjs
    rw [prettyChars_arr, List.length_cons, length_newline]
    omega
  | .obj [], _ => Nat.lt_add_of_pos_right (k := 2) (by decide)
  | .obj ((k, j) :: ms), h => by
    obtain ⟨hj, hms⟩ := Bool.and_eq_true_iff.mp h
    have hfirst := length_lt_prettyChars (depth + 1) (prettyMembers depth rest ms) j hj
    have hothers := length_lt_prettyMembers depth rest ms hms
    have hname := length_lt_stringTail
      (':' :: ' ' :: prettyChars (depth + 1) (prettyMembers depth rest ms) j) k.toList
    rw [List.length_cons, List.length_cons] at hname
    rw [prettyChars_obj, List.length_cons, length_newline, stringChars, List.length_cons]
    omega

theorem length_lt_prettyItems (depth : Nat) (rest : List Char) :
    ∀ js, plainItems js = true → rest.length < (prettyItems depth rest js).length
  | [], _ => by
    rw [prettyItems_nil, length_newline, List.length_cons]
    omega
  | j :: js, h => by
    obtain ⟨hj, hjs⟩ := Bool.and_eq_true_iff.mp h
    have hfirst := length_lt_prettyChars (depth + 1) (prettyItems depth rest js) j hj
    have hothers := length_lt_prettyItems depth rest js hjs
    rw [prettyItems_cons, List.length_cons, length_newline]
    omega

theorem length_lt_prettyMembers (depth : Nat) (rest : List Char) :
    ∀ ms, plainMembers ms = true → rest.length < (prettyMembers depth rest ms).length
  | [], _ => by
    rw [prettyMembers_nil, length_newline, List.length_cons]
    omega
  | (k, j) :: ms, h => by
    obtain ⟨hj, hms⟩ := Bool.and_eq_true_iff.mp h
    have hfirst := length_lt_prettyChars (depth + 1) (prettyMembers depth rest ms) j hj
    have hothers := length_lt_prettyMembers depth rest ms hms
    have hname := length_lt_stringTail
      (':' :: ' ' :: prettyChars (depth + 1) (prettyMembers depth rest ms) j) k.toList
    rw [List.length_cons, List.length_cons] at hname
    rw [prettyMembers_cons, List.length_cons, length_newline, stringChars, List.length_cons]
    omega

end

theorem readValue_of_digit {c : Char} (hc : isDigit c = true ∨ c = '-') (n : Nat) (l : List Char) :
    readValue (n + 1) (c :: l) = readNumber (c :: l) := by
  -- Every other value starts with a character of its own.
  have hne : ∀ d : Char, isDigit d = false → d ≠ '-' → c ≠ d := by
    rintro d hdigit hsign rfl
    rcases hc with hc | hc
    · rw [hdigit] at hc
      cases hc
    · exact hsign hc
  rw [readValue.eq_def]
  simp only
  split
  · next heq => exact absurd (List.cons.inj heq).1 (hne 'n' (by decide) (by decide))
  · next heq => exact absurd (List.cons.inj heq).1 (hne 't' (by decide) (by decide))
  · next heq => exact absurd (List.cons.inj heq).1 (hne 'f' (by decide) (by decide))
  · next heq => exact absurd (List.cons.inj heq).1 (hne '"' (by decide) (by decide))
  · next heq => exact absurd (List.cons.inj heq).1 (hne '[' (by decide) (by decide))
  · next heq => exact absurd (List.cons.inj heq).1 (hne '{' (by decide) (by decide))
  · rfl

theorem readValue_intChars (negative : Bool) (m n : Nat) {rest : List Char}
    (h : endsNumber rest = true) :
    readValue (n + 1) (intChars negative m rest) = some (.int negative m, rest) := by
  rw [← readNumber_intChars negative m h]
  cases negative with
  | true => exact readValue_of_digit (Or.inr rfl) n _
  | false =>
    show readValue (n + 1) (Nat.toDigits 10 m ++ rest) = readNumber (Nat.toDigits 10 m ++ rest)
    obtain ⟨d, ds, hdigits, hd⟩ := exists_toDigits m
    rw [hdigits]
    exact readValue_of_digit (Or.inl hd) n _

theorem readValue_arr {j : Json} (h : plain j = true) (n depth depth' : Nat) (rest : List Char) :
    readValue (n + 1) ('[' :: newline depth (prettyChars depth' rest j)) =
      readItems n [] (prettyChars depth' rest j) := by
  obtain ⟨c, l, hchars, -, hc⟩ := exists_prettyChars h depth' rest
  rw [readValue, skipBlanks_newline, skipBlanks_prettyChars h, hchars]
  split
  · next heq => exact absurd (List.cons.inj heq).1 hc
  · rfl

mutual

/-- The reader gives back the value and the rest behind its text. -/
theorem readValue_prettyChars (depth n : Nat) {rest : List Char} (hrest : endsNumber rest = true) :
    ∀ j, plain j = true → (prettyChars depth rest j).length ≤ n + rest.length →
      readValue n (prettyChars depth rest j) = some (j, rest) := by
  intro j hj hlen
  -- Each call takes one off the bound, and leaves a text that is shorter by a mark at least.
  have hpos := length_lt_prettyChars depth rest j hj
  obtain ⟨n, rfl⟩ : ∃ k, n = k + 1 := ⟨n - 1, by omega⟩
  match j with
  | .null => rfl
  | .bool true => rfl
  | .bool false => rfl
  | .int negative m => exact readValue_intChars negative m n hrest
  | .fraction _ => cases hj
  | .str s =>
    show readValue (n + 1) ('"' :: stringTail rest s.toList) = _
    rw [readValue, readString_of_stringChars]
    rfl
  | .arr [] => rfl
  | .arr (j :: js) =>
    rw [prettyChars_arr, List.length_cons, length_newline] at hlen
    rw [prettyChars_arr, readValue_arr (Bool.and_eq_true_iff.mp hj).1]
    exact readItems_prettyItems depth n [] rest (j :: js) hj j js rfl (by omega)
  | .obj [] => rfl
  | .obj ((k, j) :: ms) =>
    rw [prettyChars_obj, List.length_cons, length_newline] at hlen
    rw [prettyChars_obj, readValue, skipBlanks_stringChars]
    exact readMembers_prettyMembers depth n [] rest ((k, j) :: ms) hj k j ms rfl (by omega)
  | .unreadable => cases hj

theorem readItems_prettyItems (depth n : Nat) (acc : List Json) (rest : List Char) :
    ∀ items, plainItems items = true → ∀ j js, items = j :: js →
      (prettyChars (depth + 1) (prettyItems depth rest js) j).length + 1 ≤ n + rest.length →
      readItems n acc (prettyChars (depth + 1) (prettyItems depth rest js) j) =
        some (.arr (acc.reverse ++ items), rest)
  | [], _, _, _, h, _ => nomatch h
  | j :: js, h, _, _, heq, hlen => by
    obtain ⟨rfl, rfl⟩ := List.cons.inj heq
    obtain ⟨hj, hjs⟩ := Bool.and_eq_true_iff.mp h
    have hlong := length_lt_prettyItems depth rest js hjs
    have hfirst := length_lt_prettyChars (depth + 1) (prettyItems depth rest js) j hj
    obtain ⟨n, rfl⟩ : ∃ k, n = k + 1 := ⟨n - 1, by omega⟩
    have hread := readValue_prettyChars (depth + 1) n (endsNumber_prettyItems depth rest js) j hj
      (by omega)
    rw [readItems, hread]
    simp only
    cases js with
    | nil =>
      have hskip : skipBlanks (prettyItems depth rest []) = ']' :: rest := by
        rw [prettyItems_nil, skipBlanks_newline]
        exact skipBlanks_of_not_isBlank (by decide) rest
      rw [hskip]
      simp
    | cons j' js =>
      have hcomma : skipBlanks (prettyItems depth rest (j' :: js)) = ',' :: newline (depth + 1)
          (prettyChars (depth + 1) (prettyItems depth rest js) j') :=
        skipBlanks_of_not_isBlank (by decide) _
      have hitems : (prettyItems depth rest (j' :: js)).length = (prettyChars (depth + 1)
          (prettyItems depth rest js) j').length + 2 * (depth + 1) + 1 + 1 := by
        rw [prettyItems_cons, List.length_cons, length_newline]
      rw [hcomma]
      simp only [skipBlanks_newline, skipBlanks_prettyChars (Bool.and_eq_true_iff.mp hjs).1]
      rw [readItems_prettyItems depth n (j :: acc) rest (j' :: js) hjs j' js rfl (by omega)]
      simp

theorem readMembers_prettyMembers (depth n : Nat) (acc : List (String × Json)) (rest : List Char) :
    ∀ members, plainMembers members = true → ∀ k j ms, members = (k, j) :: ms →
      (stringChars k (':' :: ' ' ::
        prettyChars (depth + 1) (prettyMembers depth rest ms) j)).length + 1 ≤ n + rest.length →
      readMembers n acc true (stringChars k (':' :: ' ' ::
        prettyChars (depth + 1) (prettyMembers depth rest ms) j)) =
        some (.obj (acc.reverse ++ members), rest)
  | [], _, _, _, _, h, _ => nomatch h
  | (k, j) :: ms, h, _, _, _, heq, hlen => by
    obtain ⟨hkj, rfl⟩ := List.cons.inj heq
    obtain ⟨rfl, rfl⟩ := Prod.mk.inj hkj
    obtain ⟨hj, hms⟩ := Bool.and_eq_true_iff.mp h
    have hlong := length_lt_prettyMembers depth rest ms hms
    have hfirst := length_lt_prettyChars (depth + 1) (prettyMembers depth rest ms) j hj
    have hname := length_lt_stringTail
      (':' :: ' ' :: prettyChars (depth + 1) (prettyMembers depth rest ms) j) k.toList
    simp only [stringChars, List.length_cons] at hlen hname
    obtain ⟨n, rfl⟩ : ∃ k, n = k + 1 := ⟨n - 1, by omega⟩
    have hread := readValue_prettyChars (depth + 1) n (endsNumber_prettyMembers depth rest ms) j hj
      (by omega)
    have hcolon : ∀ l, skipBlanks (':' :: l) = ':' :: l :=
      skipBlanks_of_not_isBlank (by decide)
    have hvalue : skipBlanks (' ' :: prettyChars (depth + 1) (prettyMembers depth rest ms) j) =
        prettyChars (depth + 1) (prettyMembers depth rest ms) j :=
      skipBlanks_prettyChars hj (depth + 1) (prettyMembers depth rest ms)
    rw [stringChars, readMembers, readString_of_stringChars]
    simp only [hcolon, hvalue, hread]
    cases ms with
    | nil =>
      have hskip : skipBlanks (prettyMembers depth rest []) = '}' :: rest := by
        rw [prettyMembers_nil, skipBlanks_newline]
        exact skipBlanks_of_not_isBlank (by decide) rest
      rw [hskip]
      simp
    | cons m ms =>
      obtain ⟨k', j'⟩ := m
      have hcomma : skipBlanks (prettyMembers depth rest ((k', j') :: ms)) =
          ',' :: newline (depth + 1) (stringChars k' (':' :: ' ' ::
            prettyChars (depth + 1) (prettyMembers depth rest ms) j')) :=
        skipBlanks_of_not_isBlank (by decide) _
      have hmembers : (prettyMembers depth rest ((k', j') :: ms)).length = (stringChars k'
          (':' :: ' ' :: prettyChars (depth + 1) (prettyMembers depth rest ms) j')).length +
            2 * (depth + 1) + 1 + 1 := by
        rw [prettyMembers_cons, List.length_cons, length_newline]
      rw [hcomma]
      simp only [skipBlanks_stringChars]
      have hnext := readMembers_prettyMembers depth n ((k, j) :: acc) rest ((k', j') :: ms) hms
        k' j' ms rfl (by omega)
      simpa using hnext

end

/-- The text of a value that is written as it is reads back as the value. -/
theorem parse?_pretty {j : Json} (h : plain j = true) : parse? j.pretty = some j := by
  have hend : endsNumber [] = true := rfl
  have hread := readValue_prettyChars 0 ((prettyChars 0 [] j).length + 1) hend j h (by omega)
  rw [parse?, pretty, String.toList_ofList]
  simp only [skipBlanks_prettyChars h, hread]
  rfl

end FlowRecovery.Json
