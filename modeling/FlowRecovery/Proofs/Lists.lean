/-
Lists, and what is done with all their items.

What the other modules need of lists, of partial functions and of checks that stop at the
first fault, and nothing of it is about programs:

* `seq_eq_ok`, `forM_eq_ok`, `exists_of_forM_eq_error` — checks in a row;
* `forall₂_of_mapM`, `forall₂_of_mapM_eq_ok`, `exists_mem_of_forall₂`, `map_eq_of_forall₂` —
  lists whose items correspond one by one;
* `mapM_comm`, `exchange_of_parts` — partial changes that can be exchanged;
* `pairwise_filterMap_iff`, `nodup_filterMap_iff`, `isChain_and_iff` — what holds between the
  items of a list, said with positions or with its other items;
* `map_sweep`, `forall₂_of_sweep`, `state_of_sweep` — what a sweep does follows from what its
  step does;
* `start_of_sweep`, `forall₂_of_growing_sweep` — and from what holds at its end.
-/
import FlowRecovery.Sweep
import Mathlib.Data.List.Chain
import Mathlib.Data.List.DropRight
import Mathlib.Data.List.Forall2

namespace FlowRecovery

/-! ### Checks in a row -/

section Checks

variable {ε ε' α : Type}

/-- Two checks in a row pass if both do. -/
theorem seq_eq_ok {x y : Except ε Unit} :
    (x >>= fun _ => y) = .ok () ↔ x = .ok () ∧ y = .ok () := by
  cases x with
  | ok u => exact ⟨fun h => ⟨rfl, h⟩, fun h => h.2⟩
  | error e => exact ⟨nofun, fun h => nomatch h.1⟩

theorem ensure_eq_ok {p : Prop} [Decidable p] {e : ε} :
    (if p then .ok () else .error e : Except ε Unit) = .ok () ↔ p := by
  by_cases hp : p <;> simp [hp]

theorem forM_eq_ok {f : α → Except ε Unit} {l : List α} :
    l.forM f = .ok () ↔ ∀ a ∈ l, f a = .ok () := by
  induction l with
  | nil => exact ⟨fun _ _ h => absurd h List.not_mem_nil, fun _ => rfl⟩
  | cons a l ih =>
    show (f a >>= fun _ => l.forM f) = _ ↔ _
    rw [seq_eq_ok, List.forall_mem_cons, ih]

theorem exists_of_forM_eq_error {f : α → Except ε Unit} {l : List α} {e : ε}
    (h : l.forM f = .error e) : ∃ a ∈ l, f a = .error e := by
  induction l with
  | nil => cases h
  | cons a l ih =>
    have h : (f a >>= fun _ => l.forM f) = .error e := h
    cases ha : f a with
    | error e' =>
      rw [ha] at h
      exact ⟨a, List.mem_cons_self, by cases h; exact ha⟩
    | ok _ =>
      rw [ha] at h
      obtain ⟨b, hb, hfb⟩ := ih h
      exact ⟨b, List.mem_cons_of_mem _ hb, hfb⟩

theorem exists_of_mapError {x : Except ε α} {g : ε → ε'} {e : ε'}
    (h : x.mapError g = .error e) : ∃ e', x = .error e' ∧ g e' = e := by
  cases x with
  | ok _ => cases h
  | error e' =>
    cases h
    exact ⟨e', rfl, rfl⟩

end Checks

/-! ### Item by item -/

section Items

variable {ε α β γ : Type} {R : α → β → Prop} {l : List α} {l' : List β}

/-- Every item of the second list comes from one of the first. -/
theorem exists_mem_of_forall₂ {b : β} (h : List.Forall₂ R l l') (hb : b ∈ l') :
    ∃ a ∈ l, R a b := by
  induction h with
  | nil => cases hb
  | @cons a _ _ _ hab _ ih =>
    rcases List.mem_cons.mp hb with rfl | hb
    · exact ⟨a, List.mem_cons_self, hab⟩
    · obtain ⟨a', ha', hab'⟩ := ih hb
      exact ⟨a', List.mem_cons_of_mem _ ha', hab'⟩

theorem forall_mem_of_forall₂ {P : β → Prop} (h : List.Forall₂ (fun _ b => P b) l l') :
    ∀ b ∈ l', P b := by
  intro b hb
  obtain ⟨-, -, hP⟩ := exists_mem_of_forall₂ h hb
  exact hP

theorem map_eq_of_forall₂ {f : α → γ} {g : β → γ} (hR : ∀ a b, R a b → g b = f a)
    (h : List.Forall₂ R l l') : l'.map g = l.map f := by
  induction h with
  | nil => rfl
  | cons hab _ ih => rw [List.map_cons, List.map_cons, hR _ _ hab, ih]

theorem mapM_eq_ok {f : α → Except ε β} {g : α → β} (h : ∀ a ∈ l, f a = .ok (g a)) :
    l.mapM f = .ok (l.map g) := by
  induction l with
  | nil => rfl
  | cons a l ih =>
    rw [List.mapM_cons, h a List.mem_cons_self, ih fun b hb => h b (List.mem_cons_of_mem _ hb)]
    rfl

theorem forall₂_of_mapM_eq_ok {f : α → Except ε β} (h : l.mapM f = .ok l') :
    List.Forall₂ (fun a b => f a = .ok b) l l' := by
  induction l generalizing l' with
  | nil =>
    cases h
    exact .nil
  | cons a l ih =>
    rw [List.mapM_cons] at h
    obtain ⟨b, hb, h⟩ := Checked.bind_eq_ok.mp h
    obtain ⟨l'', hl, h⟩ := Checked.bind_eq_ok.mp h
    cases h
    exact .cons hb (ih hl)

/-- Decoding item by item what was encoded item by item. -/
theorem mapM_map_ok {f : β → Except ε γ} {g : α → β} {k : α → γ}
    (h : ∀ a, f (g a) = .ok (k a)) (l : List α) : (l.map g).mapM f = .ok (l.map k) := by
  rw [List.mapM_map]
  exact mapM_eq_ok fun a _ => h a

theorem forall₂_of_mapM {f : α → Option β} (h : l.mapM f = some l') :
    List.Forall₂ (fun a b => f a = some b) l l' := by
  induction l generalizing l' with
  | nil =>
    cases h
    exact .nil
  | cons a l ih =>
    rw [List.mapM_cons] at h
    obtain ⟨b, hb, h⟩ := Option.bind_eq_some_iff.mp h
    obtain ⟨l'', hl, h⟩ := Option.bind_eq_some_iff.mp h
    cases h
    exact .cons hb (ih hl)

end Items

/-! ### Partial changes -/

section Changes

variable {α β : Type} {f g : α → Option α}

/-- Two partial changes of all items of a list, one after the other. -/
theorem mapM_bind_mapM (f g : α → Option α) (l : List α) :
    (l.mapM f).bind (List.mapM g) = l.mapM fun a => (f a).bind g := by
  induction l with
  | nil => rfl
  | cons a l ih =>
    rw [List.mapM_cons, List.mapM_cons, ← ih]
    cases f a with
    | none => rfl
    | some b =>
      cases l.mapM f with
      | none => cases hg : g b <;> simp [hg]
      | some l' => simp [List.mapM_cons]

theorem mapM_comm (h : ∀ a, (f a).bind g = (g a).bind f) (l : List α) :
    (l.mapM f).bind (List.mapM g) = (l.mapM g).bind (List.mapM f) := by
  rw [mapM_bind_mapM, mapM_bind_mapM, funext h]

/-- A view that a partial change of the items keeps is kept for the whole list. -/
theorem map_of_mapM {V : α → β} (hg : ∀ a b, g a = some b → V b = V a) {l l' : List α}
    (h : l.mapM g = some l') : l'.map V = l.map V :=
  map_eq_of_forall₂ hg (forall₂_of_mapM h)

/-- What is not changed item by item is not changed. -/
theorem mapM_eq_some_self {l : List α} (h : ∀ a ∈ l, g a = some a) : l.mapM g = some l := by
  induction l with
  | nil => rfl
  | cons a l ih =>
    obtain ⟨ha, hl⟩ := List.forall_mem_cons.mp h
    rw [List.mapM_cons, ha, ih hl]
    rfl

/-- Partial functions that can be exchanged on parts can be exchanged on what is made of them. -/
theorem exchange_of_parts {f' g' : β → Option β} {m : α → β}
    (hf : ∀ a, f' (m a) = (f a).map m) (hg : ∀ a, g' (m a) = (g a).map m) {a : α}
    (h : (f a).bind g = (g a).bind f) : (f' (m a)).bind g' = (g' (m a)).bind f' := by
  calc (f' (m a)).bind g' = ((f a).bind g).map m := by
        rw [hf]
        cases f a with
        | none => rfl
        | some b => exact hg b
    _ = ((g a).bind f).map m := by rw [h]
    _ = (g' (m a)).bind f' := by
        rw [hg]
        cases g a with
        | none => rfl
        | some b => exact (hf b).symm

end Changes

/-! ### Between the items -/

section Between

variable {α β : Type} {l : List α}

/-- The chosen parts of a list are related in their order if those of any two items are. -/
theorem pairwise_filterMap_iff {f : α → Option β} {R : β → β → Prop} :
    (l.filterMap f).Pairwise R ↔
      ∀ (m n : Nat) a c x y, m < n → l[m]? = some a → l[n]? = some c → f a = some x → f c = some y →
        R x y := by
  rw [List.pairwise_filterMap, List.pairwise_iff_getElem]
  constructor
  · intro h m n a c x y hmn ha hc hx hy
    obtain ⟨hm, rfl⟩ := List.getElem?_eq_some_iff.mp ha
    obtain ⟨hn, rfl⟩ := List.getElem?_eq_some_iff.mp hc
    exact h m n hm hn hmn x hx y hy
  · intro h m n hm hn hmn x hx y hy
    exact h m n _ _ x y hmn (List.getElem?_eq_getElem hm) (List.getElem?_eq_getElem hn) hx hy

/-- The chosen parts of a list are distinct if no two positions have the same one. -/
theorem nodup_filterMap_iff {f : α → Option β} : (l.filterMap f).Nodup ↔
    ∀ (m n : Nat) a c x, l[m]? = some a → l[n]? = some c → f a = some x → f c = some x →
      m = n := by
  rw [List.Nodup, pairwise_filterMap_iff]
  constructor
  · intro h m n a c x ha hc hax hcx
    rcases Nat.lt_trichotomy m n with hlt | heq | hlt
    · exact absurd rfl (h m n a c x x hlt ha hc hax hcx)
    · exact heq
    · exact absurd rfl (h n m c a x x hlt hc ha hcx hax)
  · rintro h m n a c x y hmn ha hc hax hcy rfl
    have := h m n a c x ha hc hax hcy
    omega

/-- Parts of the items of a list are distinct if no two positions have the same one. -/
theorem nodup_map_iff {f : α → β} : (l.map f).Nodup ↔
    ∀ (m n : Nat) a c, l[m]? = some a → l[n]? = some c → f a = f c → m = n := by
  rw [← List.filterMap_eq_map, nodup_filterMap_iff]
  constructor
  · intro h m n a c ha hc heq
    exact h m n a c (f c) ha hc (congrArg some heq) rfl
  · intro h m n a c x ha hc hax hcx
    exact h m n a c ha hc (Option.some.inj (hax.trans hcx.symm))

/-- If no two items pass a test, at most one does. -/
theorem countP_le_one {p : α → Bool}
    (h : l.Pairwise fun x y => ¬ (p x = true ∧ p y = true)) : l.countP p ≤ 1 := by
  induction l with
  | nil => exact Nat.zero_le 1
  | cons x l ih =>
    obtain ⟨hx, hl⟩ := List.pairwise_cons.mp h
    rw [List.countP_cons]
    by_cases hpx : p x = true
    · have hnone : l.countP p = 0 :=
        List.countP_eq_zero.mpr fun y hy hpy => hx y hy ⟨hpx, hpy⟩
      simp [hpx, hnone]
    · simp [hpx, ih hl]

/-- A relation that asks something of its second argument holds along a list if the rest of
it does and all items but the first satisfy that. -/
theorem isChain_and_iff {R : α → α → Prop} {P : α → Prop} {a : α} :
    (a :: l).IsChain (fun x y => R x y ∧ P y) ↔ (a :: l).IsChain R ∧ ∀ x ∈ l, P x := by
  induction l generalizing a with
  | nil => simp
  | cons b l ih =>
    rw [List.isChain_cons_cons, ih, List.isChain_cons_cons, List.forall_mem_cons]
    constructor
    · rintro ⟨⟨hR, hP⟩, hchain, hall⟩
      exact ⟨⟨hR, hchain⟩, hP, hall⟩
    · rintro ⟨⟨hR, hchain⟩, hP, hall⟩
      exact ⟨⟨hR, hP⟩, hchain, hall⟩

theorem rtakeWhile_congr {p q : α → Bool} (h : ∀ x ∈ l, p x = q x) :
    l.rtakeWhile p = l.rtakeWhile q := by
  induction l using List.reverseRecOn with
  | nil => rfl
  | append_singleton l x ih =>
    have hrest := ih fun y hy => h y (List.mem_append_left _ hy)
    rw [List.rtakeWhile_concat, List.rtakeWhile_concat, h x (by simp), hrest]

end Between

/-! ### Sweeps -/

section Sweeps

variable {ε σ α β τ : Type} {f : σ → α → Swept ε σ α} {s : σ}

/-- A view that no step changes is not changed by the sweep, wherever it stops. -/
theorem map_sweep {view : α → β} (hf : ∀ s a, view (f s a).value = view a) (s : σ) (l : List α) :
    (sweep f s l).value.map view = l.map view := by
  induction l generalizing s with
  | nil => rfl
  | cons a rest ih =>
    simp only [sweep]
    split
    · rw [List.map_cons, hf, List.map_cons]
    · rw [List.map_cons, hf, ih, List.map_cons]

/-- What every step keeps a sweep keeps, wherever it stops. -/
theorem state_of_sweep {I : σ → Prop} (hf : ∀ s a, I s → I (f s a).state) (l : List α) (hs : I s) :
    I (sweep f s l).state := by
  induction l generalizing s with
  | nil => exact hs
  | cons a rest ih =>
    simp only [sweep]
    split
    · exact hf s a hs
    · exact ih (hf s a hs)

/-- What stops a sweep stopped one of its steps. -/
theorem stop_of_sweep {l : List α} {e : Stop ε} (h : (sweep f s l).stop = some e) :
    ∃ s, ∃ a ∈ l, (f s a).stop = some e := by
  induction l generalizing s with
  | nil => cases h
  | cons a rest ih =>
    rw [sweep] at h
    cases hstop : (f s a).stop with
    | some error =>
      simp only [hstop] at h
      exact ⟨s, a, List.mem_cons_self, hstop.trans h⟩
    | none =>
      simp only [hstop] at h
      obtain ⟨s', b, hb, hfb⟩ := ih h
      exact ⟨s', b, List.mem_cons_of_mem a hb, hfb⟩

/-- A sweep that does not stop has made its step for every item.  The items are given
by others, which the step is compared with. -/
theorem forall₂_of_sweep {prepare : β → α} {R : β → α → Prop}
    (hf : ∀ s b, (f s (prepare b)).stop = none → R b (f s (prepare b)).value)
    {l : List β} (h : (sweep f s (l.map prepare)).stop = none) :
    List.Forall₂ R l (sweep f s (l.map prepare)).value := by
  induction l generalizing s with
  | nil => exact .nil
  | cons b rest ih =>
    rw [List.map_cons, sweep] at h ⊢
    cases hstop : (f s (prepare b)).stop with
    | some e => simp [hstop] at h
    | none =>
      simp only [hstop] at h ⊢
      exact .cons (hf s b hstop) (ih h)

/-- What holds of all states that lead to a state with it, holds from the start of a sweep that
ends in such a state. -/
theorem start_of_sweep {B : σ → Prop} (hdown : ∀ s a, B (f s a).state → B s) {l : List α}
    (h : B (sweep f s l).state) : B s := by
  induction l generalizing s with
  | nil => exact h
  | cons a rest ih =>
    simp only [sweep] at h
    split at h
    · exact hdown s a h
    · exact hdown s a (ih h)

variable {P : α → Prop}

/-- What a sweep that does not stop has made of each item, seen from its end. -/
theorem forall₂_of_growing_sweep {B : σ → Prop} {R : α → α → Prop}
    (hdown : ∀ s a, B (f s a).state → B s)
    (hf : ∀ s a, P a → (f s a).stop = none → B (f s a).state → R a (f s a).value)
    {l : List α} (hl : ∀ a ∈ l, P a) (h : (sweep f s l).stop = none)
    (hend : B (sweep f s l).state) : List.Forall₂ R l (sweep f s l).value := by
  induction l generalizing s with
  | nil => exact .nil
  | cons a rest ih =>
    obtain ⟨ha, hl⟩ := List.forall_mem_cons.mp hl
    rw [sweep] at h hend ⊢
    cases hstop : (f s a).stop with
    | some e => simp [hstop] at h
    | none =>
      simp only [hstop] at h hend ⊢
      exact .cons (hf s a ha hstop (start_of_sweep hdown hend)) (ih hl h hend)

/-- The state behind a sweep that does not stop adds up what its steps give out. -/
theorem foldl_of_sweep {V : σ → τ} {give : α → List β} {g : τ → β → τ}
    (hf : ∀ s a, P a → (f s a).stop = none →
      V (f s a).state = (give (f s a).value).foldl g (V s))
    {l : List α} (hl : ∀ a ∈ l, P a) (h : (sweep f s l).stop = none) :
    V (sweep f s l).state = ((sweep f s l).value.flatMap give).foldl g (V s) := by
  induction l generalizing s with
  | nil => rfl
  | cons a rest ih =>
    obtain ⟨ha, hl⟩ := List.forall_mem_cons.mp hl
    rw [sweep] at h ⊢
    cases hstop : (f s a).stop with
    | some e => simp [hstop] at h
    | none =>
      simp only [hstop] at h ⊢
      rw [List.flatMap_cons, List.foldl_append, ← hf s a ha hstop]
      exact ih hl h

end Sweeps

end FlowRecovery
