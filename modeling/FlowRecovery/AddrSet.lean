/-
Finite sets of addresses, held as strictly increasing lists.

The order is part of the type, so two sets with the same members are equal and
every listing of a set is in address order.  The view of a set is membership:

* `mem_insert`, `mem_erase`, `mem_union`, `mem_ofList` — one equation per operation;
* `ext` — sets with the same members are equal;
* `size_le` — a set of words has at most `2 ^ 64` members, which is what bounds
  every search through an address space.
-/
import FlowRecovery.Word

namespace FlowRecovery

/-- Put a word into an increasing list, unless it is there already. -/
def insertSorted (a : Addr) : List Addr → List Addr
  | [] => [a]
  | b :: l => if a < b then a :: b :: l else if a = b then b :: l else b :: insertSorted a l

theorem mem_insertSorted {a x : Addr} {l : List Addr} :
    x ∈ insertSorted a l ↔ x = a ∨ x ∈ l := by
  induction l with
  | nil => simp [insertSorted]
  | cons b l ih =>
    unfold insertSorted
    split
    · simp
    · split
      · next h =>
        subst h
        simp
      · simp only [List.mem_cons, ih]
        constructor
        · rintro (h | h | h) <;> simp [h]
        · rintro (h | h | h) <;> simp [h]

theorem pairwise_insertSorted {a : Addr} {l : List Addr} (hl : l.Pairwise (· < ·)) :
    (insertSorted a l).Pairwise (· < ·) := by
  induction l with
  | nil => simp [insertSorted]
  | cons b l ih =>
    rw [List.pairwise_cons] at hl
    unfold insertSorted
    split
    · next hab =>
      refine List.pairwise_cons.mpr ⟨?_, List.pairwise_cons.mpr hl⟩
      intro x hx
      rcases List.mem_cons.mp hx with rfl | hx
      · exact hab
      · exact UInt64.lt_trans hab (hl.1 x hx)
    · split
      · exact List.pairwise_cons.mpr hl
      · next hab hne =>
        refine List.pairwise_cons.mpr ⟨?_, ih hl.2⟩
        intro x hx
        rcases mem_insertSorted.mp hx with rfl | hx
        · rw [UInt64.lt_iff_toNat_lt] at hab ⊢
          have : x.toNat ≠ b.toNat := fun h => hne (UInt64.toNat_inj.mp h)
          omega
        · exact hl.1 x hx

/-- A finite set of addresses. -/
structure AddrSet where
  toList : List Addr
  sorted : toList.Pairwise (· < ·)
  deriving DecidableEq

namespace AddrSet

instance : Repr AddrSet := ⟨fun s n => reprPrec s.toList n⟩

instance : Membership Addr AddrSet := ⟨fun s a => a ∈ s.toList⟩

instance (a : Addr) (s : AddrSet) : Decidable (a ∈ s) := inferInstanceAs (Decidable (a ∈ s.toList))

theorem mem_def {a : Addr} {s : AddrSet} : a ∈ s ↔ a ∈ s.toList := Iff.rfl

@[simp] theorem mem_toList {a : Addr} {s : AddrSet} : a ∈ s.toList ↔ a ∈ s := Iff.rfl

/-- The set with no members. -/
def empty : AddrSet := ⟨[], List.Pairwise.nil⟩

instance : EmptyCollection AddrSet := ⟨empty⟩

instance : Inhabited AddrSet := ⟨empty⟩

/-- Add a member. -/
def insert (s : AddrSet) (a : Addr) : AddrSet :=
  ⟨insertSorted a s.toList, pairwise_insertSorted s.sorted⟩

/-- Remove a member. -/
def erase (s : AddrSet) (a : Addr) : AddrSet :=
  ⟨s.toList.filter (· ≠ a), s.sorted.filter _⟩

/-- Whether the address is a member. -/
def contains (s : AddrSet) (a : Addr) : Bool := decide (a ∈ s)

/-- The members of a list. -/
def ofList (l : List Addr) : AddrSet := l.foldr (fun a s => s.insert a) empty

/-- The members of either set. -/
def union (s t : AddrSet) : AddrSet := s.toList.foldr (fun a u => u.insert a) t

/-- The members that pass a test. -/
def filter (s : AddrSet) (p : Addr → Bool) : AddrSet := ⟨s.toList.filter p, s.sorted.filter _⟩

/-- The set with one member. -/
def singleton (a : Addr) : AddrSet := ⟨[a], List.pairwise_singleton _ _⟩

/-- How many members the set has. -/
def size (s : AddrSet) : Nat := s.toList.length

/-- Whether the set has no members. -/
def isEmpty (s : AddrSet) : Bool := s.toList.isEmpty

/-- The least member together with the set of the others. -/
def popMin? (s : AddrSet) : Option (Addr × AddrSet) :=
  match s with
  | ⟨[], _⟩ => none
  | ⟨a :: l, h⟩ => some (a, ⟨l, (List.pairwise_cons.mp h).2⟩)

@[simp] theorem not_mem_empty (a : Addr) : a ∉ (∅ : AddrSet) := List.not_mem_nil

@[simp] theorem mem_insert {s : AddrSet} {a x : Addr} : x ∈ s.insert a ↔ x = a ∨ x ∈ s :=
  mem_insertSorted

@[simp] theorem mem_erase {s : AddrSet} {a x : Addr} : x ∈ s.erase a ↔ x ∈ s ∧ x ≠ a := by
  rw [mem_def]
  simp [erase]

@[simp] theorem mem_filter {s : AddrSet} {p : Addr → Bool} {x : Addr} :
    x ∈ s.filter p ↔ x ∈ s ∧ p x = true := by
  rw [mem_def]
  simp [filter]

@[simp] theorem mem_singleton {a x : Addr} : x ∈ singleton a ↔ x = a := by
  rw [mem_def]
  simp [singleton]

@[simp] theorem contains_iff {s : AddrSet} {a : Addr} : s.contains a = true ↔ a ∈ s := by
  simp [contains]

@[simp] theorem mem_ofList {l : List Addr} {x : Addr} : x ∈ ofList l ↔ x ∈ l := by
  induction l with
  | nil => exact Iff.rfl
  | cons a l ih => simp only [ofList, List.foldr_cons, mem_insert, List.mem_cons] at ih ⊢; rw [ih]

@[simp] theorem mem_union {s t : AddrSet} {x : Addr} : x ∈ s.union t ↔ x ∈ s ∨ x ∈ t := by
  rw [union, mem_def (s := s)]
  induction s.toList with
  | nil => simp
  | cons a l ih => simp only [List.foldr_cons, mem_insert, List.mem_cons, ih, or_assoc]

theorem mem_of_popMin? {s t : AddrSet} {a : Addr} (h : s.popMin? = some (a, t)) :
    ∀ x, x ∈ s ↔ x = a ∨ x ∈ t := by
  obtain ⟨l, hl⟩ := s
  cases l with
  | nil => simp [popMin?] at h
  | cons b l =>
    simp only [popMin?, Option.some.injEq, Prod.mk.injEq] at h
    obtain ⟨rfl, rfl⟩ := h
    exact fun x => List.mem_cons

/-- The popped address is below every address that stays. -/
theorem lt_of_popMin? {s t : AddrSet} {a : Addr} (h : s.popMin? = some (a, t)) :
    ∀ x ∈ t, a < x := by
  obtain ⟨l, hl⟩ := s
  cases l with
  | nil => simp [popMin?] at h
  | cons b l =>
    simp only [popMin?, Option.some.injEq, Prod.mk.injEq] at h
    obtain ⟨rfl, rfl⟩ := h
    exact fun x hx => (List.pairwise_cons.mp hl).1 x hx

theorem size_popMin? {s t : AddrSet} {a : Addr} (h : s.popMin? = some (a, t)) :
    s.size = t.size + 1 := by
  obtain ⟨l, hl⟩ := s
  cases l with
  | nil => simp [popMin?] at h
  | cons b l =>
    simp only [popMin?, Option.some.injEq, Prod.mk.injEq] at h
    obtain ⟨rfl, rfl⟩ := h
    rfl

@[simp] theorem popMin?_eq_none {s : AddrSet} : s.popMin? = none ↔ s = ∅ := by
  obtain ⟨l, hl⟩ := s
  cases l with
  | nil => exact ⟨fun _ => rfl, fun _ => rfl⟩
  | cons b l =>
    refine ⟨fun h => by simp [popMin?] at h, fun h => ?_⟩
    have := congrArg toList h
    cases this

theorem length_insertSorted_of_not_mem {a : Addr} {l : List Addr} (h : a ∉ l) :
    (insertSorted a l).length = l.length + 1 := by
  induction l with
  | nil => rfl
  | cons b l ih =>
    simp only [List.mem_cons, not_or] at h
    unfold insertSorted
    split
    · rfl
    · rw [if_neg h.1, List.length_cons, List.length_cons, ih h.2]

theorem size_insert_of_not_mem {s : AddrSet} {a : Addr} (h : a ∉ s) :
    (s.insert a).size = s.size + 1 :=
  length_insertSorted_of_not_mem h

theorem length_le_of_pairwise {l : List Addr} {n : Nat} (hl : l.Pairwise (· < ·))
    (hn : ∀ x ∈ l, n ≤ x.toNat) (hmax : n ≤ 0x10000000000000000) :
    l.length + n ≤ 0x10000000000000000 := by
  induction l generalizing n with
  | nil => simpa using hmax
  | cons a l ih =>
    rw [List.pairwise_cons] at hl
    have ha := hn a (List.mem_cons_self)
    have hlt := a.toNat_lt
    have := ih (n := a.toNat + 1) hl.2
      (fun x hx => UInt64.lt_iff_toNat_lt.mp (hl.1 x hx)) (by omega)
    simp only [List.length_cons]
    omega

/-- There are only `2 ^ 64` addresses. -/
theorem size_le (s : AddrSet) : s.size ≤ 0x10000000000000000 :=
  length_le_of_pairwise s.sorted (fun _ _ => Nat.zero_le _) (Nat.zero_le _)

theorem eq_of_pairwise {l m : List Addr} (hl : l.Pairwise (· < ·)) (hm : m.Pairwise (· < ·))
    (h : ∀ x, x ∈ l ↔ x ∈ m) : l = m := by
  induction l generalizing m with
  | nil =>
    cases m with
    | nil => rfl
    | cons b m => exact absurd ((h b).mpr List.mem_cons_self) List.not_mem_nil
  | cons a l ih =>
    cases m with
    | nil => exact absurd ((h a).mp List.mem_cons_self) List.not_mem_nil
    | cons b m =>
      rw [List.pairwise_cons] at hl hm
      have hab : a = b := by
        rcases List.mem_cons.mp ((h a).mp List.mem_cons_self) with e | ha
        · exact e
        · rcases List.mem_cons.mp ((h b).mpr List.mem_cons_self) with e | hb
          · exact e.symm
          · exact absurd (UInt64.lt_trans (hm.1 a ha) (hl.1 b hb)) (UInt64.lt_irrefl b)
      subst hab
      congr 1
      refine ih hl.2 hm.2 fun x => ⟨fun hx => ?_, fun hx => ?_⟩
      · rcases List.mem_cons.mp ((h x).mp (List.mem_cons_of_mem _ hx)) with rfl | hx'
        · exact absurd (hl.1 x hx) (UInt64.lt_irrefl x)
        · exact hx'
      · rcases List.mem_cons.mp ((h x).mpr (List.mem_cons_of_mem _ hx)) with rfl | hx'
        · exact absurd (hm.1 x hx) (UInt64.lt_irrefl x)
        · exact hx'

/-- Sets with the same members are equal. -/
theorem ext {s t : AddrSet} (h : ∀ x, x ∈ s ↔ x ∈ t) : s = t := by
  obtain ⟨l, hl⟩ := s
  obtain ⟨m, hm⟩ := t
  have : l = m := eq_of_pairwise hl hm h
  subst this
  rfl

end AddrSet

end FlowRecovery
