/-
Finite maps from addresses, held as lists of entries in strictly increasing order
of their keys.

* `get?_insert`, `get?_erase` — what a later look-up sees;
* `mem_entries_iff` — the entries are exactly the answers of `get?`;
* `lastBelow?_eq_some`, `lastBelow?_eq_none` — `lastBelow?` finds the entry with the
  greatest key below a bound, and `lastUpTo?` the one up to it;
* `contains_ofList` — the keys of the map of a list of pairs are those of the pairs.
-/
import FlowRecovery.AddrSet

namespace FlowRecovery

variable {α β : Type}

/-- The value of the first entry with the given key. -/
def lookupEntry (k : Addr) : List (Addr × α) → Option α
  | [] => none
  | e :: l => if k = e.1 then some e.2 else lookupEntry k l

/-- Put an entry into an increasing list of entries, replacing one with the same key. -/
def insertEntry (k : Addr) (v : α) : List (Addr × α) → List (Addr × α)
  | [] => [(k, v)]
  | e :: l => if k < e.1 then (k, v) :: e :: l else if k = e.1 then (k, v) :: l
      else e :: insertEntry k v l

/-- Put an entry into an increasing list of entries, unless its key has one. -/
def addEntry (k : Addr) (v : α) : List (Addr × α) → List (Addr × α)
  | [] => [(k, v)]
  | e :: l => if k < e.1 then (k, v) :: e :: l else if k = e.1 then e :: l
      else e :: addEntry k v l

theorem mem_insertEntry {k : Addr} {v : α} {l : List (Addr × α)} {e : Addr × α}
    (h : e ∈ insertEntry k v l) : e = (k, v) ∨ e ∈ l := by
  induction l with
  | nil => simpa [insertEntry] using h
  | cons b l ih =>
    unfold insertEntry at h
    split at h
    · simpa using h
    · split at h
      · rcases List.mem_cons.mp h with h | h <;> simp [h]
      · rcases List.mem_cons.mp h with h | h
        · simp [h]
        · rcases ih h with h | h <;> simp [h]

theorem pairwise_insertEntry {k : Addr} {v : α} {l : List (Addr × α)}
    (hl : l.Pairwise (fun a b => a.1 < b.1)) :
    (insertEntry k v l).Pairwise (fun a b => a.1 < b.1) := by
  induction l with
  | nil => simp [insertEntry]
  | cons b l ih =>
    rw [List.pairwise_cons] at hl
    unfold insertEntry
    split
    · next hkb =>
      refine List.pairwise_cons.mpr ⟨?_, List.pairwise_cons.mpr hl⟩
      intro x hx
      rcases List.mem_cons.mp hx with rfl | hx
      · exact hkb
      · exact UInt64.lt_trans hkb (hl.1 x hx)
    · split
      · next hkb =>
        exact List.pairwise_cons.mpr ⟨fun x hx => hkb ▸ hl.1 x hx, hl.2⟩
      · next hkb hne =>
        refine List.pairwise_cons.mpr ⟨?_, ih hl.2⟩
        intro x hx
        rcases mem_insertEntry hx with rfl | hx
        · rw [UInt64.lt_iff_toNat_lt] at hkb ⊢
          have : k.toNat ≠ b.1.toNat := fun h => hne (UInt64.toNat_inj.mp h)
          simp only
          omega
        · exact hl.1 x hx

theorem mem_addEntry {k : Addr} {v : α} {l : List (Addr × α)} {e : Addr × α}
    (h : e ∈ addEntry k v l) : e = (k, v) ∨ e ∈ l := by
  induction l with
  | nil => simpa [addEntry] using h
  | cons b l ih =>
    unfold addEntry at h
    split at h
    · simpa using h
    · split at h
      · exact Or.inr h
      · rcases List.mem_cons.mp h with h | h
        · simp [h]
        · rcases ih h with h | h <;> simp [h]

theorem pairwise_addEntry {k : Addr} {v : α} {l : List (Addr × α)}
    (hl : l.Pairwise (fun a b => a.1 < b.1)) :
    (addEntry k v l).Pairwise (fun a b => a.1 < b.1) := by
  induction l with
  | nil => simp [addEntry]
  | cons b l ih =>
    rw [List.pairwise_cons] at hl
    unfold addEntry
    split
    · next hkb =>
      refine List.pairwise_cons.mpr ⟨?_, List.pairwise_cons.mpr hl⟩
      intro x hx
      rcases List.mem_cons.mp hx with rfl | hx
      · exact hkb
      · exact UInt64.lt_trans hkb (hl.1 x hx)
    · split
      · exact List.pairwise_cons.mpr hl
      · next hkb hne =>
        refine List.pairwise_cons.mpr ⟨?_, ih hl.2⟩
        intro x hx
        rcases mem_addEntry hx with rfl | hx
        · rw [UInt64.lt_iff_toNat_lt] at hkb ⊢
          have : k.toNat ≠ b.1.toNat := fun h => hne (UInt64.toNat_inj.mp h)
          simp only
          omega
        · exact hl.1 x hx

theorem lookupEntry_insertEntry {k x : Addr} {v : α} {l : List (Addr × α)} :
    lookupEntry x (insertEntry k v l) = if x = k then some v else lookupEntry x l := by
  induction l with
  | nil => rfl
  | cons b l ih =>
    unfold insertEntry
    split
    · rfl
    · split
      · next hk =>
        subst hk
        simp only [lookupEntry]
        split <;> rfl
      · next hlt hne =>
        simp only [lookupEntry, ih]
        by_cases h : x = k
        · subst h
          simp [hne]
        · simp [h]

theorem lookupEntry_filter {k x : Addr} {l : List (Addr × α)} :
    lookupEntry x (l.filter (·.1 ≠ k)) = if x = k then none else lookupEntry x l := by
  induction l with
  | nil => simp [lookupEntry]
  | cons b l ih =>
    by_cases hb : b.1 = k
    · rw [List.filter_cons_of_neg (by simp [hb]), ih, lookupEntry, hb]
      by_cases hx : x = k <;> simp [hx]
    · rw [List.filter_cons_of_pos (by simp [hb]), lookupEntry, lookupEntry, ih]
      by_cases hx : x = k
      · have : x ≠ b.1 := fun e => hb (e.symm.trans hx)
        rw [if_neg this, if_pos hx, if_pos hx]
      · rw [if_neg hx, if_neg hx]

theorem lookupEntry_eq_none_of_lt {k : Addr} {l : List (Addr × α)} (h : ∀ e ∈ l, k < e.1) :
    lookupEntry k l = none := by
  induction l with
  | nil => rfl
  | cons e l ih =>
    rw [lookupEntry, if_neg, ih fun e' he' => h e' (List.mem_cons_of_mem _ he')]
    rintro rfl
    exact UInt64.lt_irrefl _ (h e List.mem_cons_self)

theorem lookupEntry_addEntry {k x : Addr} {v : α} {l : List (Addr × α)}
    (hl : l.Pairwise (fun a b => a.1 < b.1)) :
    lookupEntry x (addEntry k v l) =
      if x = k then some ((lookupEntry k l).getD v) else lookupEntry x l := by
  induction l with
  | nil => rfl
  | cons b l ih =>
    rw [List.pairwise_cons] at hl
    unfold addEntry
    split
    · next hkb =>
      -- The new key is below the first one, hence below all.
      have hk : lookupEntry k (b :: l) = none := by
        refine lookupEntry_eq_none_of_lt fun e he => ?_
        rcases List.mem_cons.mp he with rfl | he
        · exact hkb
        · exact UInt64.lt_trans hkb (hl.1 e he)
      rw [hk]
      rfl
    · split
      · next hk =>
        subst hk
        simp only [lookupEntry, if_true, Option.getD_some]
        split <;> rfl
      · next hne =>
        simp only [lookupEntry, ih hl.2, if_neg hne]
        by_cases h : x = k
        · subst h
          rw [if_neg hne, if_pos rfl, if_pos rfl]
        · rw [if_neg h, if_neg h]

theorem lookupEntry_eq_some_iff {k : Addr} {v : α} {l : List (Addr × α)}
    (hl : l.Pairwise (fun a b => a.1 < b.1)) : lookupEntry k l = some v ↔ (k, v) ∈ l := by
  induction l with
  | nil => simp [lookupEntry]
  | cons b l ih =>
    rw [List.pairwise_cons] at hl
    rw [lookupEntry, List.mem_cons]
    by_cases h : k = b.1
    · rw [if_pos h, Option.some.injEq]
      constructor
      · intro e
        exact Or.inl (by rw [h, ← e])
      · rintro (e | hm)
        · rw [← e]
        · exact absurd (hl.1 _ hm) (by simp [h, UInt64.lt_irrefl])
    · rw [if_neg h, ih hl.2]
      exact ⟨Or.inr, fun hm => hm.resolve_left fun e => h (congrArg Prod.fst e)⟩

theorem eq_of_lookupEntry_eq {l l' : List (Addr × α)} (hl : l.Pairwise (fun a b => a.1 < b.1))
    (hl' : l'.Pairwise (fun a b => a.1 < b.1)) (h : ∀ k, lookupEntry k l = lookupEntry k l') :
    l = l' := by
  induction l generalizing l' with
  | nil =>
    cases l' with
    | nil => rfl
    | cons b l' => simpa [lookupEntry] using h b.1
  | cons a l ih =>
    cases l' with
    | nil => simpa [lookupEntry] using h a.1
    | cons b l' =>
      have ha : (a.1, a.2) ∈ b :: l' :=
        (lookupEntry_eq_some_iff hl').mp (by rw [← h]; simp [lookupEntry])
      have hb : (b.1, b.2) ∈ a :: l :=
        (lookupEntry_eq_some_iff hl).mp (by rw [h]; simp [lookupEntry])
      have pl := List.pairwise_cons.mp hl
      have pl' := List.pairwise_cons.mp hl'
      have hab : a = b := by
        rcases List.mem_cons.mp ha with e | ha
        · exact e
        · rcases List.mem_cons.mp hb with e | hb
          · exact e.symm
          · exact absurd (UInt64.lt_trans (pl.1 _ hb) (pl'.1 _ ha)) (UInt64.lt_irrefl a.1)
      subst hab
      congr 1
      refine ih pl.2 pl'.2 fun k => ?_
      by_cases e : k = a.1
      · subst e
        rw [lookupEntry_eq_none_of_lt pl.1, lookupEntry_eq_none_of_lt pl'.1]
      · simpa [lookupEntry, e] using h k

/-- A finite map from addresses. -/
structure AddrMap (α : Type) where
  entries : List (Addr × α)
  sorted : entries.Pairwise (fun a b => a.1 < b.1)
  deriving DecidableEq

namespace AddrMap

instance [Repr α] : Repr (AddrMap α) := ⟨fun m n => reprPrec m.entries n⟩

/-- The map with no entries. -/
def empty : AddrMap α := ⟨[], List.Pairwise.nil⟩

instance : EmptyCollection (AddrMap α) := ⟨empty⟩

instance : Inhabited (AddrMap α) := ⟨empty⟩

/-- The value at a key. -/
def get? (m : AddrMap α) (k : Addr) : Option α := lookupEntry k m.entries

/-- Whether the key has a value. -/
def contains (m : AddrMap α) (k : Addr) : Bool := (m.get? k).isSome

/-- Give a key a value, in place of any it had. -/
def insert (m : AddrMap α) (k : Addr) (v : α) : AddrMap α :=
  ⟨insertEntry k v m.entries, pairwise_insertEntry m.sorted⟩

/-- Take a key's value away. -/
def erase (m : AddrMap α) (k : Addr) : AddrMap α :=
  ⟨m.entries.filter (·.1 ≠ k), m.sorted.filter _⟩

/-- Give a key a value, unless it has one. -/
def insertNew (m : AddrMap α) (k : Addr) (v : α) : AddrMap α :=
  ⟨addEntry k v m.entries, pairwise_addEntry m.sorted⟩

/-- The map of a list of pairs; of pairs with one key the last counts. -/
def ofList (l : List (Addr × α)) : AddrMap α := l.foldr (fun e m => m.insertNew e.1 e.2) empty

/-- The keys, in increasing order. -/
def keys (m : AddrMap α) : List Addr := m.entries.map (·.1)

/-- The values, in increasing order of their keys. -/
def values (m : AddrMap α) : List α := m.entries.map (·.2)

/-- How many keys have a value. -/
def size (m : AddrMap α) : Nat := m.entries.length

/-- Whether no key has a value. -/
def isEmpty (m : AddrMap α) : Bool := m.entries.isEmpty

/-- The entry with the greatest key below the bound. -/
def lastBelow? (m : AddrMap α) (bound : Addr) : Option (Addr × α) :=
  (m.entries.filter (·.1 < bound)).getLast?

/-- The entry with the greatest key not above the bound. -/
def lastUpTo? (m : AddrMap α) (bound : Addr) : Option (Addr × α) :=
  (m.entries.filter (·.1 ≤ bound)).getLast?

@[simp] theorem get?_empty (x : Addr) : (∅ : AddrMap α).get? x = none := rfl

theorem get?_insert (m : AddrMap α) (k x : Addr) (v : α) :
    (m.insert k v).get? x = if x = k then some v else m.get? x :=
  lookupEntry_insertEntry

theorem get?_erase (m : AddrMap α) (k x : Addr) :
    (m.erase k).get? x = if x = k then none else m.get? x :=
  lookupEntry_filter

/-- The entries are exactly the answers of `get?`. -/
theorem mem_entries_iff {m : AddrMap α} {k : Addr} {v : α} :
    (k, v) ∈ m.entries ↔ m.get? k = some v :=
  (lookupEntry_eq_some_iff m.sorted).symm

theorem mem_keys {m : AddrMap α} {k : Addr} : k ∈ m.keys ↔ m.contains k = true := by
  rw [keys, contains, List.mem_map, Option.isSome_iff_exists]
  constructor
  · rintro ⟨⟨k', v⟩, he, rfl⟩
    exact ⟨v, mem_entries_iff.mp he⟩
  · rintro ⟨v, hv⟩
    exact ⟨(k, v), mem_entries_iff.mpr hv, rfl⟩

theorem mem_values {m : AddrMap α} {v : α} : v ∈ m.values ↔ ∃ k, m.get? k = some v := by
  rw [values, List.mem_map]
  constructor
  · rintro ⟨⟨k, v'⟩, he, rfl⟩
    exact ⟨k, mem_entries_iff.mp he⟩
  · rintro ⟨k, hk⟩
    exact ⟨(k, v), mem_entries_iff.mpr hk, rfl⟩

theorem keys_pairwise (m : AddrMap α) : m.keys.Pairwise (· < ·) := by
  rw [keys, List.pairwise_map]
  exact m.sorted

theorem get?_insertNew (m : AddrMap α) (k x : Addr) (v : α) :
    (m.insertNew k v).get? x = if x = k then some ((m.get? k).getD v) else m.get? x :=
  lookupEntry_addEntry m.sorted

theorem contains_ofList {l : List (Addr × α)} {k : Addr} :
    (ofList l).contains k = true ↔ k ∈ l.map (·.1) := by
  induction l with
  | nil => exact ⟨nofun, nofun⟩
  | cons e l ih =>
    have h : (ofList (e :: l)).get? k =
        if k = e.1 then some (((ofList l).get? e.1).getD e.2) else (ofList l).get? k :=
      get?_insertNew (ofList l) e.1 k e.2
    rw [contains, h, List.map_cons, List.mem_cons, ← ih, contains]
    by_cases hk : k = e.1
    · simp [hk]
    · simp [hk]

/-- The map of pairs that are in the order of their keys has just these entries. -/
theorem entries_ofList {l : List (Addr × α)} (h : l.Pairwise (fun a b => a.1 < b.1)) :
    (ofList l).entries = l := by
  induction l with
  | nil => rfl
  | cons e l ih =>
    obtain ⟨he, hl⟩ := List.pairwise_cons.mp h
    show addEntry e.1 e.2 (ofList l).entries = e :: l
    rw [ih hl]
    cases l with
    | nil => rfl
    | cons e' l => exact if_pos (he e' List.mem_cons_self)

theorem eq_or_lt_of_getLast? {l : List (Addr × α)} {e : Addr × α}
    (hl : l.Pairwise (fun a b => a.1 < b.1)) (h : l.getLast? = some e) :
    ∀ x ∈ l, x = e ∨ x.1 < e.1 := by
  obtain ⟨t, rfl⟩ := List.getLast?_eq_some_iff.mp h
  intro x hx
  rcases List.mem_append.mp hx with hx | hx
  · exact Or.inr ((List.pairwise_append.mp hl).2.2 x hx e List.mem_cons_self)
  · exact Or.inl (List.mem_singleton.mp hx)

/-- Of the entries whose keys pass a test, the last one has the greatest key. -/
theorem getLast?_filter_eq_some {m : AddrMap α} {p : Addr → Bool} {k : Addr} {v : α}
    (h : (m.entries.filter fun e => p e.1).getLast? = some (k, v)) :
    m.get? k = some v ∧ p k = true ∧
      ∀ k' v', m.get? k' = some v' → p k' = true → k' = k ∨ k' < k := by
  obtain ⟨hmem, hp⟩ := List.mem_filter.mp (List.mem_of_getLast? h)
  refine ⟨mem_entries_iff.mp hmem, hp, fun k' v' hk' hp' => ?_⟩
  have hin : (k', v') ∈ m.entries.filter fun e => p e.1 :=
    List.mem_filter.mpr ⟨mem_entries_iff.mpr hk', hp'⟩
  rcases eq_or_lt_of_getLast? (m.sorted.filter _) h _ hin with he | hl
  · exact Or.inl (congrArg Prod.fst he)
  · exact Or.inr hl

theorem getLast?_filter_eq_none {m : AddrMap α} {p : Addr → Bool}
    (h : (m.entries.filter fun e => p e.1).getLast? = none) :
    ∀ k v, m.get? k = some v → ¬ p k = true := by
  intro k v hk
  exact List.filter_eq_nil_iff.mp (List.getLast?_eq_none_iff.mp h) (k, v) (mem_entries_iff.mpr hk)

/-- The entry that is found is the one with the greatest key below the bound. -/
theorem lastBelow?_eq_some {m : AddrMap α} {bound k : Addr} {v : α}
    (h : m.lastBelow? bound = some (k, v)) :
    m.get? k = some v ∧ k < bound ∧
      ∀ k' v', m.get? k' = some v' → k' < bound → k' = k ∨ k' < k := by
  simpa only [decide_eq_true_eq] using getLast?_filter_eq_some (p := fun a => a < bound) h

theorem lastBelow?_eq_none {m : AddrMap α} {bound : Addr} (h : m.lastBelow? bound = none) :
    ∀ k v, m.get? k = some v → ¬ k < bound := by
  simpa only [decide_eq_true_eq] using getLast?_filter_eq_none (p := fun a => a < bound) h

/-- The entry that is found is the one with the greatest key up to the bound. -/
theorem lastUpTo?_eq_some {m : AddrMap α} {bound k : Addr} {v : α}
    (h : m.lastUpTo? bound = some (k, v)) :
    m.get? k = some v ∧ k ≤ bound ∧
      ∀ k' v', m.get? k' = some v' → k' ≤ bound → k' = k ∨ k' < k := by
  simpa only [decide_eq_true_eq] using getLast?_filter_eq_some (p := fun a => a ≤ bound) h

theorem lastUpTo?_eq_none {m : AddrMap α} {bound : Addr} (h : m.lastUpTo? bound = none) :
    ∀ k v, m.get? k = some v → ¬ k ≤ bound := by
  simpa only [decide_eq_true_eq] using getLast?_filter_eq_none (p := fun a => a ≤ bound) h

/-- Maps with the same look-ups are equal. -/
theorem ext {m m' : AddrMap α} (h : ∀ k, m.get? k = m'.get? k) : m = m' := by
  obtain ⟨l, hl⟩ := m
  obtain ⟨l', hl'⟩ := m'
  have : l = l' := eq_of_lookupEntry_eq hl hl' h
  subst this
  rfl

end AddrMap

end FlowRecovery
