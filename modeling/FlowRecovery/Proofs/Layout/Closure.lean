/-
The blocks of a function are those that control reaches.

The closure of an entry is found by a search with a queue.  Whatever is found was
reached, and when the queue is empty no block that is found leads to one that is not:
so the closure is reachability by edges that stay in the function.

* `reaches_of_mem_closureFrom` — what the search finds is reached from its entry;
* `mem_of_within_closureFrom` — what a found block leads to is found;
* `mem_closure_iff` — the closure is reachability.
-/
import FlowRecovery.Proofs.Assembly.Assembled

namespace FlowRecovery.Store

variable {s : Store} {entries : AddrSet} {entry : Addr} {members : AddrSet} {queue : List Addr}
  {a : Addr}

/-- Control goes from one stored block to another inside the function that starts at
`entry`. -/
def Within (s : Store) (entries : AddrSet) (entry x y : Addr) : Prop :=
  ∃ b, s.get? x = some b ∧ y ∈ s.within entries entry b

theorem mem_within {b : Block} :
    a ∈ s.within entries entry b ↔
      a ∈ b.successors ∧ s.contains a = true ∧ (a = entry ∨ a ∉ entries) := by
  rw [within, List.mem_filter, Bool.and_eq_true, Bool.or_eq_true, Bool.not_eq_true',
    decide_eq_true_iff]
  refine and_congr_right fun _ => and_congr_right fun _ => or_congr_right ?_
  rw [← Bool.not_eq_true, AddrSet.contains_iff]

theorem mem_ahead {b : Block} :
    a ∈ s.ahead entries entry members b ↔ a ∈ s.within entries entry b ∧ a ∉ members := by
  rw [ahead, List.mem_filter, Bool.not_eq_true', ← Bool.not_eq_true, AddrSet.contains_iff]

theorem reaches_of_mem_closureFrom
    (hmembers : ∀ x ∈ members, Relation.ReflTransGen (s.Within entries entry) entry x)
    (hqueue : ∀ x ∈ queue, Relation.ReflTransGen (s.Within entries entry) entry x)
    (h : a ∈ s.closureFrom entries entry members queue) :
    Relation.ReflTransGen (s.Within entries entry) entry a := by
  fun_induction closureFrom s entries entry members queue with
  | case1 members => exact hmembers a h
  | case2 members x rest hx ih => exact ih hmembers (List.forall_mem_cons.mp hqueue).2 h
  | case3 members x rest b hb hx ih => exact ih hmembers (List.forall_mem_cons.mp hqueue).2 h
  | case4 members x rest b hb hx ih =>
    obtain ⟨hreach, hrest⟩ := List.forall_mem_cons.mp hqueue
    refine ih ?_ ?_ h
    · intro y hy
      rcases AddrSet.mem_insert.mp hy with rfl | hy
      · exact hreach
      · exact hmembers y hy
    · intro y hy
      rcases List.mem_append.mp hy with hy | hy
      · exact hrest y hy
      · exact hreach.tail ⟨b, hb, (mem_ahead.mp hy).1⟩

/-- The invariant of the search: what a member leads to is a member or still in the queue. -/
theorem mem_of_within_closureFrom
    (hopen : ∀ x ∈ members, ∀ y, s.Within entries entry x y → y ∈ members ∨ y ∈ queue)
    {x y : Addr} (hx : x ∈ s.closureFrom entries entry members queue)
    (h : s.Within entries entry x y) : y ∈ s.closureFrom entries entry members queue := by
  fun_induction closureFrom s entries entry members queue with
  | case1 members => exact (hopen x hx y h).resolve_right List.not_mem_nil
  | case2 members c rest hc ih =>
    refine ih ?_ hx
    intro x hx y hy
    refine (hopen x hx y hy).imp_right fun hmem => (List.mem_cons.mp hmem).resolve_left ?_
    -- Edges inside the function lead to stored blocks.
    rintro rfl
    obtain ⟨b, -, hwithin⟩ := hy
    obtain ⟨d, hd⟩ := contains_iff.mp (mem_within.mp hwithin).2.1
    rw [hc] at hd
    cases hd
  | case3 members c rest b hb hc ih =>
    refine ih ?_ hx
    intro x hx y hy
    rcases hopen x hx y hy with hmem | hmem
    · exact Or.inl hmem
    · rcases List.mem_cons.mp hmem with rfl | hmem
      · exact Or.inl hc
      · exact Or.inr hmem
  | case4 members c rest b hb hc ih =>
    refine ih ?_ hx
    intro x hx y hy
    rcases AddrSet.mem_insert.mp hx with rfl | hx
    · obtain ⟨d, hd, hwithin⟩ := hy
      rw [hb] at hd
      cases hd
      by_cases hmem : y ∈ members.insert x
      · exact Or.inl hmem
      · exact Or.inr (List.mem_append_right _ (mem_ahead.mpr ⟨hwithin, hmem⟩))
    · rcases hopen x hx y hy with hmem | hmem
      · exact Or.inl (AddrSet.mem_insert.mpr (Or.inr hmem))
      · rcases List.mem_cons.mp hmem with rfl | hmem
        · exact Or.inl (AddrSet.mem_insert.mpr (Or.inl rfl))
        · exact Or.inr (List.mem_append_left _ hmem)

theorem mem_closure_of_within {x y : Addr} (hx : x ∈ s.closure entries entry)
    (h : s.Within entries entry x y) : y ∈ s.closure entries entry :=
  mem_of_within_closureFrom (fun c hc => absurd hc (AddrSet.not_mem_empty c)) hx h

/-- The closure of a stored entry holds what is reached from it inside the function. -/
theorem mem_closure_iff :
    a ∈ s.closure entries entry ↔ s.contains entry = true ∧
      Relation.ReflTransGen (s.Within entries entry) entry a := by
  constructor
  · intro h
    refine ⟨?_, reaches_of_mem_closureFrom ?_ ?_ h⟩
    · by_contra hnot
      have hnone : s.get? entry = none := by
        cases hget : s.get? entry with
        | none => rfl
        | some b => exact absurd (contains_iff.mpr ⟨b, hget⟩) hnot
      exact not_mem_closure hnone h
    · exact fun x hx => absurd hx (AddrSet.not_mem_empty x)
    · intro x hx
      rw [List.mem_singleton.mp hx]
  · rintro ⟨hentry, hreach⟩
    obtain ⟨b, hb⟩ := contains_iff.mp hentry
    induction hreach with
    | refl => exact entry_mem_closure hb
    | tail _ hstep ih => exact mem_closure_of_within ih hstep

end FlowRecovery.Store
