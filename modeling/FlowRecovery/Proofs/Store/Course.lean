/-
The course of an insertion.

A repair takes its turns from the highest overlap downwards.  If stored blocks start
inside the new one, the last of them, at `a`, gives way to the second half of the new
block; the first half is inserted into what is left, and then the second half, which
nothing overlaps any more, is kept.  If none does, the new block is kept or dropped, or
it divides the block it starts in.  `Course` lists these cases, so that a law of
insertions is an induction over it.

* `Sound.overlapping_eq_none`, `Sound.overlapping_eq_some` — `overlapping` finds the last
  of all overlaps;
* `Course.repairWithin` — how many turns a course takes;
* `Sound.course_insert` — the insertion of a sound block takes its course.
-/
import FlowRecovery.Proofs.Block.Slices
import FlowRecovery.Proofs.Store.Total
import Mathlib.Data.List.Induction

namespace FlowRecovery

namespace Store

variable {s s' : Store} {b e first second : Block} {a : Addr} {l : List Addr}

/-! ### Turns -/

/-- One turn with the block on top of the stack: the store after it, and the blocks that go
back onto the stack. -/
def turn (s : Store) (b : Block) : Checked BlockError (Store × List Block) :=
  match s.overlapping b with
  | .error err => .error err
  | .ok none => .ok (s.put b, [])
  | .ok (some (k, old)) =>
    if b.address = k then .ok (s.noteDuplicate, [])
    else (if b.address < k then b.split k else old.split b.address).map fun halves =>
      (s.giveWay k, [halves.1, halves.2])

theorem repair_cons (s : Store) (b : Block) (rest : List Block) :
    s.repair (b :: rest) = match s.turn b with
      | .ok (s', pushed) => s'.repair (pushed ++ rest)
      | .error err => (s, .error err) := by
  rw [repair, turn]
  split
  · next err ho => simp only [ho]
  · next ho => simp only [ho, List.nil_append]
  · next k old ho =>
    simp only [ho]
    split
    · rfl
    · split <;> split <;> next hs => simp only [hs, Except.map, List.cons_append, List.nil_append]

/-- A repair of at most `n` turns; none if they are not enough. -/
def repairWithin : Nat → Store → List Block → Option (Store × Checked BlockError Unit)
  | _, s, [] => some (s, .ok ())
  | 0, _, _ :: _ => none
  | n + 1, s, b :: rest =>
    match s.turn b with
    | .ok (s', pushed) => repairWithin n s' (pushed ++ rest)
    | .error err => some (s, .error err)

theorem repair_of_repairWithin {n : Nat} {pending : List Block} {r : Store × Checked BlockError Unit}
    (h : repairWithin n s pending = some r) : s.repair pending = r := by
  induction n generalizing s pending with
  | zero =>
    cases pending with
    | nil => simpa [repairWithin, repair] using h
    | cons b rest => cases h
  | succ n ih =>
    cases pending with
    | nil => simpa [repairWithin, repair] using h
    | cons b rest =>
      rw [repairWithin] at h
      rw [repair_cons]
      split at h
      · exact ih h
      · exact Option.some.inj h

theorem repairWithin_succ {n : Nat} {pending : List Block} {r : Store × Checked BlockError Unit}
    (h : repairWithin n s pending = some r) : repairWithin (n + 1) s pending = some r := by
  induction n generalizing s pending with
  | zero =>
    cases pending with
    | nil => exact h
    | cons b rest => cases h
  | succ n ih =>
    cases pending with
    | nil => exact h
    | cons b rest =>
      rw [repairWithin] at h ⊢
      split at h
      · exact ih h
      · exact h

theorem repairWithin_mono {n m : Nat} {pending : List Block} {r : Store × Checked BlockError Unit}
    (hnm : n ≤ m) (h : repairWithin n s pending = some r) : repairWithin m s pending = some r := by
  induction hnm with
  | refl => exact h
  | step _ ih => exact repairWithin_succ ih

/-- What is pending is repaired before the rest. -/
theorem repairWithin_append {n m : Nat} {pending rest : List Block}
    {r : Store × Checked BlockError Unit}
    (h : repairWithin n s pending = some (s', .ok ())) (hrest : repairWithin m s' rest = some r) :
    repairWithin (n + m) s (pending ++ rest) = some r := by
  induction n generalizing s pending with
  | zero =>
    cases pending with
    | nil =>
      cases h
      exact repairWithin_mono (by omega) hrest
    | cons b pending => cases h
  | succ n ih =>
    cases pending with
    | nil =>
      cases h
      exact repairWithin_mono (by omega) hrest
    | cons b pending =>
      rw [Nat.add_right_comm, List.cons_append, repairWithin]
      rw [repairWithin] at h
      cases ht : s.turn b with
      | error err => simp [ht] at h
      | ok out =>
        simp only [ht, ← List.append_assoc] at h ⊢
        exact ih h

/-- A repair that fails does not come to the rest. -/
theorem repairWithin_append_error {n : Nat} {pending : List Block} (rest : List Block)
    {err : Stop BlockError} (h : repairWithin n s pending = some (s', .error err)) :
    repairWithin n s (pending ++ rest) = some (s', .error err) := by
  induction n generalizing s pending with
  | zero =>
    cases pending with
    | nil => cases h
    | cons b pending => cases h
  | succ n ih =>
    cases pending with
    | nil => cases h
    | cons b pending =>
      rw [List.cons_append, repairWithin]
      rw [repairWithin] at h
      cases ht : s.turn b with
      | error err => simpa only [ht] using h
      | ok out =>
        simp only [ht, ← List.append_assoc] at h ⊢
        exact ih h

/-! ### The last overlap -/

theorem of_overlapping {ε : Type} {k : Addr} {old : Block}
    (ho : (s.overlapping b : Checked ε _) = .ok (some (k, old))) :
    s.get? k = some old ∧ k.toNat < b.stop ∧ b.address.toNat < old.stop ∧
      ∀ x c, s.get? x = some c → x.toNat < b.stop → x ≤ k := by
  have hget := get?_of_overlapping ho
  obtain ⟨limit, hlimit, ho⟩ := Checked.bind_eq_ok.mp ho
  rw [Block.limit_eq_ok] at hlimit
  cases hl : s.blocks.lastBelow? limit with
  | none =>
    rw [hl] at ho
    cases ho
  | some found =>
    simp only [hl] at ho
    obtain ⟨oldLimit, holdLimit, ho⟩ := Checked.bind_eq_ok.mp ho
    rw [Block.limit_eq_ok] at holdLimit
    by_cases hlt : b.address < oldLimit
    · rw [if_pos hlt] at ho
      cases ho
      obtain ⟨-, hk, hmax⟩ := AddrMap.lastBelow?_eq_some hl
      rw [UInt64.lt_iff_toNat_lt] at hlt hk
      refine ⟨hget, by omega, by omega, fun x c hx hxb => ?_⟩
      have hxl : x < limit := UInt64.lt_iff_toNat_lt.mpr (by omega)
      rcases hmax x c hx hxl with rfl | hxk
      · exact UInt64.le_refl _
      · exact UInt64.le_of_lt hxk
    · rw [if_neg hlt] at ho
      cases ho

namespace Sound

theorem overlapping_eq_none {ε : Type} (h : s.Sound) (hb : b.Sound) :
    (s.overlapping b : Checked ε _) = .ok none ↔
      ∀ k c, s.get? k = some c → c.stop ≤ b.address.toNat ∨ b.stop ≤ k.toNat := by
  constructor
  · exact h.apart_of_overlapping
  · intro hapart
    obtain ⟨r, hr⟩ := h.succeeds_overlapping hb (ε := ε)
    cases r with
    | none => exact hr
    | some found =>
      obtain ⟨hget, hlow, hhigh, -⟩ := of_overlapping hr
      rcases hapart _ _ hget with hle | hle <;> omega

theorem overlapping_eq_some {ε : Type} {k : Addr} {old : Block} (h : s.Sound) (hb : b.Sound) :
    (s.overlapping b : Checked ε _) = .ok (some (k, old)) ↔
      s.get? k = some old ∧ k.toNat < b.stop ∧ b.address.toNat < old.stop ∧
        ∀ x c, s.get? x = some c → x.toNat < b.stop → x ≤ k := by
  constructor
  · exact of_overlapping
  · rintro ⟨hget, hlow, hhigh, hmax⟩
    obtain ⟨r, hr⟩ := h.succeeds_overlapping hb (ε := ε)
    cases r with
    | none =>
      rcases h.apart_of_overlapping hr k old hget with hle | hle <;> omega
    | some found =>
      -- Both are the greatest start below the limit.
      obtain ⟨x, c⟩ := found
      obtain ⟨hgetx, hlowx, -, hmaxx⟩ := of_overlapping hr
      have hle := UInt64.le_iff_toNat_le.mp (hmax x c hgetx hlowx)
      have hge := UInt64.le_iff_toNat_le.mp (hmaxx k old hget hlow)
      obtain rfl : x = k := UInt64.toNat_inj.mp (by omega)
      obtain rfl : c = old := Option.some.inj (hgetx.symm.trans hget)
      exact hr

end Sound

/-! ### Where a block meets stored ones -/

/-- The stored starts that lie inside the block, behind its own start. -/
def between (s : Store) (b : Block) : List Addr :=
  s.addresses.filter fun a => b.address < a ∧ a.toNat < b.stop

/-- The block starts inside a stored one, behind its start. -/
structure Divides (s : Store) (b e : Block) : Prop where
  stored : s.get? e.address = some e
  start_lt : e.address < b.address
  lt_stop : b.address.toNat < e.stop

theorem mem_between : a ∈ s.between b ↔
    s.contains a = true ∧ b.address.toNat < a.toNat ∧ a.toNat < b.stop := by
  rw [between, List.mem_filter, decide_eq_true_iff, UInt64.lt_iff_toNat_lt]
  exact and_congr_left fun _ => AddrMap.mem_keys

theorem pairwise_between : (s.between b).Pairwise (· < ·) := s.blocks.keys_pairwise.filter _

/-- The last start inside the block is the greatest. -/
theorem le_of_mem_between (hl : s.between b = l ++ [a]) {x : Addr} (hx : x ∈ s.between b) :
    x.toNat ≤ a.toNat := by
  have hpair := pairwise_between (s := s) (b := b)
  rw [hl] at hx hpair
  rcases List.mem_append.mp hx with hx | hx
  · have hlt := (List.pairwise_append.mp hpair).2.2 x hx a List.mem_cons_self
    exact (UInt64.lt_iff_toNat_lt.mp hlt).le
  · rw [List.mem_singleton.mp hx]

theorem mem_of_between_eq (hl : s.between b = l ++ [a]) :
    s.contains a = true ∧ b.address.toNat < a.toNat ∧ a.toNat < b.stop :=
  mem_between.mp (by rw [hl]; exact List.mem_append_right l List.mem_cons_self)

/-- Once the last start is gone, the rest lies inside the first half. -/
theorem between_giveWay (hl : s.between b = l ++ [a]) (hv : b.Halves a first second) :
    (s.giveWay a).between first = l := by
  have hpair := pairwise_between (s := s) (b := b)
  rw [hl] at hpair
  obtain ⟨hpl, -, hla⟩ := List.pairwise_append.mp hpair
  obtain ⟨-, -, hstop⟩ := mem_of_between_eq hl
  refine AddrSet.eq_of_pairwise pairwise_between hpl fun x => ?_
  have hmem : x ∈ s.between b ↔ x ∈ l ∨ x = a := by simp [hl]
  rw [mem_between] at hmem
  rw [mem_between, contains_giveWay, hv.address_first, hv.stop_first_eq]
  constructor
  · rintro ⟨⟨hne, hin⟩, hlow, hhigh⟩
    exact (hmem.mp ⟨hin, hlow, by omega⟩).resolve_right hne
  · intro hx
    have hxa := hla x hx a List.mem_cons_self
    obtain ⟨hin, hlow, -⟩ := hmem.mpr (Or.inl hx)
    refine ⟨⟨fun heq => UInt64.lt_irrefl _ (heq ▸ hxa), hin⟩, hlow, ?_⟩
    exact UInt64.lt_iff_toNat_lt.mp hxa

theorem divides_giveWay (hl : s.between b = l ++ [a]) (hv : b.Halves a first second) :
    (s.giveWay a).Divides first e ↔ s.Divides b e := by
  obtain ⟨-, hlow, -⟩ := mem_of_between_eq hl
  have hne : e.address < b.address → e.address ≠ a := by
    rintro hlt rfl
    rw [UInt64.lt_iff_toNat_lt] at hlt
    omega
  constructor
  · rintro ⟨hget, hlt, hstop⟩
    rw [hv.address_first] at hlt hstop
    exact ⟨get?_of_giveWay hget, hlt, hstop⟩
  · rintro ⟨hget, hlt, hstop⟩
    refine ⟨?_, hv.address_first ▸ hlt, hv.address_first ▸ hstop⟩
    rw [get?_giveWay, if_neg (hne hlt)]
    exact hget

theorem Divides.unique (h : s.Sound) {e' : Block} (he : s.Divides b e) (he' : s.Divides b e') :
    e' = e := by
  have hle : ∀ {c d : Block}, s.Divides b c → s.Divides b d → ¬ c.address < d.address := by
    intro c d hc hd hlt
    have hstop := h.apart _ _ c hc.stored (contains_iff.mpr ⟨d, hd.stored⟩) hlt
    have := hc.lt_stop
    have := UInt64.lt_iff_toNat_lt.mp hd.start_lt
    omega
  have haddr : e'.address = e.address := by
    have h1 := hle he he'
    have h2 := hle he' he
    rw [UInt64.lt_iff_toNat_lt] at h1 h2
    exact UInt64.toNat_inj.mp (by omega)
  have hget := he'.stored
  rw [haddr, he.stored] at hget
  exact (Option.some.inj hget).symm

/-- A block that starts inside a stored one starts where no stored one does. -/
theorem Divides.not_contains (h : s.Sound) (he : s.Divides b e) :
    ¬ s.contains b.address = true := by
  intro hin
  have hstop := h.apart _ _ e he.stored hin he.start_lt
  have := he.lt_stop
  omega

/-! ### What a turn does -/

namespace Sound

/-- Where nothing starts inside the block, the blocks before its start are all that can
reach into it. -/
theorem le_start (hl : s.between b = []) {x : Addr} {c : Block} (hx : s.get? x = some c)
    (hlt : x.toNat < b.stop) : x.toNat ≤ b.address.toNat := by
  by_contra hgt
  have hmem : x ∈ s.between b := mem_between.mpr ⟨contains_iff.mpr ⟨c, hx⟩, by omega, hlt⟩
  rw [hl] at hmem
  cases hmem

theorem turn_of_apart (h : s.Sound) (hb : b.Sound)
    (hapart : ∀ k c, s.get? k = some c → c.stop ≤ b.address.toNat ∨ b.stop ≤ k.toNat) :
    s.turn b = .ok (s.put b, []) := by
  rw [turn, (h.overlapping_eq_none hb).mpr hapart]

theorem turn_of_last (h : s.Sound) (hb : b.Sound) (hl : s.between b = l ++ [a]) :
    s.turn b = (b.split a).map fun halves => (s.giveWay a, [halves.1, halves.2]) := by
  obtain ⟨hin, hlow, hhigh⟩ := mem_of_between_eq hl
  obtain ⟨old, hold⟩ := contains_iff.mp hin
  have hstop := (h.blocks a old hold).lt_stop
  rw [h.keyed a old hold] at hstop
  have ho : (s.overlapping b : Checked BlockError _) = .ok (some (a, old)) := by
    refine (h.overlapping_eq_some hb).mpr ⟨hold, hhigh, by omega, fun x c hx hxb => ?_⟩
    rw [UInt64.le_iff_toNat_le]
    by_cases hxlow : b.address.toNat < x.toNat
    · exact le_of_mem_between hl (mem_between.mpr ⟨contains_iff.mpr ⟨c, hx⟩, hxlow, hxb⟩)
    · omega
  have hlt : b.address < a := UInt64.lt_iff_toNat_lt.mpr hlow
  have hne : b.address ≠ a := fun heq => UInt64.lt_irrefl _ (heq ▸ hlt)
  simp only [turn, ho, if_neg hne, if_pos hlt]

theorem turn_of_contains (h : s.Sound) (hb : b.Sound) (hl : s.between b = [])
    (hin : s.contains b.address = true) : s.turn b = .ok (s.noteDuplicate, []) := by
  obtain ⟨old, hold⟩ := contains_iff.mp hin
  have hstop := (h.blocks _ old hold).lt_stop
  rw [h.keyed _ old hold] at hstop
  have ho : (s.overlapping b : Checked BlockError _) = .ok (some (b.address, old)) := by
    refine (h.overlapping_eq_some hb).mpr ⟨hold, hb.lt_stop, hstop, fun x c hx hxb => ?_⟩
    exact UInt64.le_iff_toNat_le.mpr (le_start hl hx hxb)
  simp only [turn, ho, if_true]

theorem turn_of_divides (h : s.Sound) (hb : b.Sound) (hl : s.between b = [])
    (he : s.Divides b e) :
    s.turn b = (e.split b.address).map fun halves =>
      (s.giveWay e.address, [halves.1, halves.2]) := by
  have hlt := UInt64.lt_iff_toNat_lt.mp he.start_lt
  have hstop := he.lt_stop
  have ho : (s.overlapping b : Checked BlockError _) = .ok (some (e.address, e)) := by
    have hbs := hb.lt_stop
    refine (h.overlapping_eq_some hb).mpr ⟨he.stored, by omega, hstop, fun x c hx hxb => ?_⟩
    -- A later start would lie behind the whole of the divided block.
    have hxle := le_start hl hx hxb
    refine UInt64.not_lt.mp fun hex => ?_
    have := h.apart _ x e he.stored (contains_iff.mpr ⟨c, hx⟩) hex
    omega
  have hne : b.address ≠ e.address := fun heq => UInt64.lt_irrefl _ (heq ▸ he.start_lt)
  simp only [turn, ho, if_neg hne, if_neg (UInt64.not_lt.mpr (UInt64.le_of_lt he.start_lt))]

/-- A block that starts in no stored one, and in which none starts, is apart from all. -/
theorem apart_of_outside (h : s.Sound) (hl : s.between b = []) (hout : ¬ s.contains b.address = true)
    (hno : ∀ e, ¬ s.Divides b e) :
    ∀ k c, s.get? k = some c → c.stop ≤ b.address.toNat ∨ b.stop ≤ k.toNat := by
  intro k c hc
  by_cases hk : b.stop ≤ k.toNat
  · exact Or.inr hk
  · left
    have hle := le_start hl hc (by omega)
    have hne : k ≠ b.address := by
      rintro rfl
      exact hout (contains_iff.mpr ⟨c, hc⟩)
    have hkey := h.keyed k c hc
    by_contra hgt
    refine hno c ⟨hkey.symm ▸ hc, ?_, by omega⟩
    rw [hkey, UInt64.lt_iff_toNat_lt]
    have : k.toNat ≠ b.address.toNat := fun heq => hne (UInt64.toNat_inj.mp heq)
    omega

/-- The halves of a divided block are kept in its place. -/
theorem turns_of_halves (h : s.Sound) (he : s.Divides b e) (hv : e.Halves b.address first second) :
    (s.giveWay e.address).turn first = .ok ((s.giveWay e.address).put first, []) ∧
      ((s.giveWay e.address).put first).turn second =
        .ok (((s.giveWay e.address).put first).put second, []) := by
  obtain ⟨hfirst, hsecond⟩ := Block.Sound.splitStable (h.blocks _ e he.stored) trivial hv
  have hgive := h.giveWay e.address
  have hstop1 := hv.stop_first_eq
  have hstop2 := hv.stop_second_eq
  have hlt := UInt64.lt_iff_toNat_lt.mp he.start_lt
  have hlt' := he.lt_stop
  -- What is left ends before the divided block, or starts behind it.
  have hrest : ∀ k c, (s.giveWay e.address).get? k = some c →
      c.stop ≤ e.address.toNat ∨ e.stop ≤ k.toNat := by
    intro k c hc
    have hne : k ≠ e.address := by
      rintro rfl
      rw [get?_giveWay, if_pos rfl] at hc
      cases hc
    have hc' := get?_of_giveWay hc
    rcases UInt64.lt_or_lt_of_ne hne with hke | hke
    · exact Or.inl (h.apart k e.address c hc' (contains_iff.mpr ⟨e, he.stored⟩) hke)
    · exact Or.inr (h.apart e.address k e he.stored (contains_iff.mpr ⟨c, hc'⟩) hke)
  have hapart1 : ∀ k c, (s.giveWay e.address).get? k = some c →
      c.stop ≤ first.address.toNat ∨ first.stop ≤ k.toNat := by
    intro k c hc
    rw [hv.address_first, hstop1]
    rcases hrest k c hc with hle | hle
    · exact Or.inl hle
    · exact Or.inr (by omega)
  have hturn := hgive.turn_of_apart hfirst hapart1
  refine ⟨hturn, ?_⟩
  have hput := hgive.put hfirst ((hgive.overlapping_eq_none hfirst).mpr hapart1)
  refine hput.turn_of_apart hsecond fun k c hc => ?_
  rw [hv.address_second, hstop2]
  rw [get?_put] at hc
  split at hc
  · cases hc
    exact Or.inl hstop1.le
  · rcases hrest k c hc with hle | hle
    · exact Or.inl (by omega)
    · exact Or.inr hle

end Sound

/-! ### The course of an insertion -/

/-- The course of an insertion, from the last start inside the block downwards. -/
inductive Course : Store → Block → Store × Checked BlockError Unit → Prop where
  | keep {s : Store} {b : Block} (hl : s.between b = []) (hout : ¬ s.contains b.address = true)
      (hno : ∀ e, ¬ s.Divides b e) (ht : s.turn b = .ok (s.put b, [])) :
      Course s b (s.put b, .ok ())
  | drop {s : Store} {b : Block} (hl : s.between b = []) (hin : s.contains b.address = true)
      (ht : s.turn b = .ok (s.noteDuplicate, [])) : Course s b (s.noteDuplicate, .ok ())
  | divide {s : Store} {b e first second : Block} (hl : s.between b = []) (he : s.Divides b e)
      (hs : e.split b.address = .ok (first, second))
      (ht : s.turn b = .ok (s.giveWay e.address, [first, second]))
      (hfirst : (s.giveWay e.address).turn first = .ok ((s.giveWay e.address).put first, []))
      (hsecond : ((s.giveWay e.address).put first).turn second =
        .ok (((s.giveWay e.address).put first).put second, [])) :
      Course s b (((s.giveWay e.address).put first).put second, .ok ())
  | undivided {s : Store} {b e : Block} {err : Stop BlockError} (hl : s.between b = [])
      (he : s.Divides b e) (hs : e.split b.address = .error err) (ht : s.turn b = .error err) :
      Course s b (s, .error err)
  | unsplit {s : Store} {b : Block} {l : List Addr} {a : Addr} {err : Stop BlockError}
      (hl : s.between b = l ++ [a]) (hs : b.split a = .error err) (ht : s.turn b = .error err) :
      Course s b (s, .error err)
  | split {s s' : Store} {b first second : Block} {l : List Addr} {a : Addr}
      (hl : s.between b = l ++ [a]) (hs : b.split a = .ok (first, second))
      (ht : s.turn b = .ok (s.giveWay a, [first, second]))
      (hfirst : Course (s.giveWay a) first (s', .ok ()))
      (hsecond : s'.turn second = .ok (s'.put second, [])) : Course s b (s'.put second, .ok ())
  | stuck {s s' : Store} {b first second : Block} {l : List Addr} {a : Addr}
      {err : Stop BlockError} (hl : s.between b = l ++ [a]) (hs : b.split a = .ok (first, second))
      (ht : s.turn b = .ok (s.giveWay a, [first, second]))
      (hfirst : Course (s.giveWay a) first (s', .error err)) : Course s b (s', .error err)

namespace Course

variable {r : Store × Checked BlockError Unit}

/-- Every start inside the block costs two turns; a block that is divided costs two more. -/
theorem repairWithin (h : Course s b r) :
    repairWithin (1 + 2 * ((s.between b).length + 1)) s [b] = some r := by
  induction h with
  | keep hl _ _ ht => simp [hl, Store.repairWithin, ht]
  | drop hl _ ht => simp [hl, Store.repairWithin, ht]
  | divide hl _ _ ht hfirst hsecond => simp [hl, Store.repairWithin, ht, hfirst, hsecond]
  | undivided hl _ _ ht => simp [hl, Store.repairWithin, ht]
  | unsplit hl _ ht =>
    rw [Nat.add_comm, Store.repairWithin, ht]
  | @split s s' b first second l a hl hs ht _ hsecond ih =>
    have hlen : (s.between b).length = l.length + 1 := by simp [hl]
    have hput : Store.repairWithin 1 s' [second] = some (s'.put second, .ok ()) := by
      simp [Store.repairWithin, hsecond]
    rw [between_giveWay hl (Block.halves_of_split hs)] at ih
    have hboth := repairWithin_append ih hput
    rw [hlen, Nat.add_comm, Store.repairWithin, ht]
    exact repairWithin_mono (by omega) hboth
  | @stuck s s' b first second l a err hl hs ht _ ih =>
    have hlen : (s.between b).length = l.length + 1 := by simp [hl]
    rw [between_giveWay hl (Block.halves_of_split hs)] at ih
    rw [hlen, Nat.add_comm, Store.repairWithin, ht]
    exact repairWithin_mono (by omega) (repairWithin_append_error [second] ih)

theorem insert_eq (h : Course s b r) : s.insert b = r := repair_of_repairWithin h.repairWithin

end Course

/-- The block ends before the address, unless it starts there or behind it. -/
def EndsBefore (a : Addr) (b : Block) : Prop := b.address.toNat < a.toNat → b.stop ≤ a.toNat

theorem EndsBefore.splitStable (a : Addr) :
    SplitStable (fun _ => True) fun b => b.Sound ∧ EndsBefore a b := by
  rintro b at_ first second ⟨hb, hends⟩ - hv
  obtain ⟨hfirst, hsecond⟩ := Block.Sound.splitStable hb trivial hv
  have hstop1 := hv.stop_first_eq
  have hstop2 := hv.stop_second_eq
  have hlt1 := hfirst.lt_stop
  have hlt2 := hsecond.lt_stop
  rw [hv.address_first] at hlt1
  rw [hv.address_second] at hlt2
  refine ⟨⟨hfirst, fun hlt => ?_⟩, hsecond, fun hlt => ?_⟩
  · rw [hv.address_first] at hlt
    have := hends hlt
    omega
  · rw [hv.address_second] at hlt
    have := hends (by omega)
    omega

/-- When the first half has been inserted, nothing overlaps the second. -/
theorem Sound.apart_second (h : s.Sound) (hb : b.Sound) (hl : s.between b = l ++ [a])
    (hv : b.Halves a first second) (hok : ((s.giveWay a).insert first).2 = .ok ()) :
    ∀ k c, ((s.giveWay a).insert first).1.get? k = some c →
      c.stop ≤ second.address.toNat ∨ second.stop ≤ k.toNat := by
  obtain ⟨hin, hlow, hhigh⟩ := mem_of_between_eq hl
  have hfirst := (Block.Sound.splitStable hb trivial hv).1
  have hgive := h.giveWay a
  -- What is stored, and the first half, ends before the start that gave way.
  have hall : Everywhere (fun _ => True) (fun c => c.Sound ∧ EndsBefore a c) (s.giveWay a, []) := by
    refine ⟨fun k c hc => ⟨hgive.keyed k c hc, trivial, hgive.blocks k c hc, fun hlt => ?_⟩, nofun⟩
    have hc' := get?_of_giveWay hc
    rw [h.keyed k c hc'] at hlt
    exact h.apart k a c hc' hin (UInt64.lt_iff_toNat_lt.mpr hlt)
  have hends := hall.insert (EndsBefore.splitStable a)
    ⟨trivial, hfirst, fun _ => hv.stop_first_eq.le⟩
  intro k c hc
  obtain ⟨hkey, -, -, hk⟩ := hends.stored k c hc
  rw [hv.address_second, hv.stop_second_eq]
  by_cases hlt : k.toNat < a.toNat
  · exact Or.inl (hk (hkey ▸ hlt))
  · -- A start behind it was stored before, and not inside the block.
    right
    have hstart : k ∈ ((s.giveWay a).insert first).1.starts :=
      mem_starts.mpr (contains_iff.mpr ⟨c, hc⟩)
    rw [starts_insert hgive.keyed hok, AddrSet.mem_insert, mem_starts, contains_giveWay,
      hv.address_first] at hstart
    have hkb : k ≠ b.address := by
      rintro rfl
      omega
    obtain ⟨hka, hks⟩ := hstart.resolve_left hkb
    have hne : k.toNat ≠ a.toNat := fun heq => hka (UInt64.toNat_inj.mp heq)
    by_contra hgt
    have := le_of_mem_between hl (mem_between.mpr ⟨hks, by omega, by omega⟩)
    omega

/-- The insertion of a sound block into a sound store takes its course. -/
theorem Sound.exists_course (h : s.Sound) (hb : b.Sound) : ∃ r, Course s b r := by
  -- By induction on the starts inside the block, the last one first.
  induction hl : s.between b using List.reverseRecOn generalizing s b with
  | nil =>
    by_cases hin : s.contains b.address = true
    · exact ⟨_, .drop hl hin (h.turn_of_contains hb hl hin)⟩
    · by_cases hdiv : ∃ e, s.Divides b e
      · obtain ⟨e, he⟩ := hdiv
        have ht := h.turn_of_divides hb hl he
        cases hs : e.split b.address with
        | error err =>
          rw [hs] at ht
          exact ⟨_, .undivided hl he hs ht⟩
        | ok halves =>
          obtain ⟨first, second⟩ := halves
          rw [hs] at ht
          obtain ⟨h1, h2⟩ := h.turns_of_halves he (Block.halves_of_split hs)
          exact ⟨_, .divide hl he hs ht h1 h2⟩
      · have hno : ∀ e, ¬ s.Divides b e := not_exists.mp hdiv
        exact ⟨_, .keep hl hin hno (h.turn_of_apart hb (h.apart_of_outside hl hin hno))⟩
  | append_singleton l a ih =>
    have ht := h.turn_of_last hb hl
    cases hs : b.split a with
    | error err =>
      rw [hs] at ht
      exact ⟨_, .unsplit hl hs ht⟩
    | ok halves =>
      obtain ⟨first, second⟩ := halves
      rw [hs] at ht
      have hv := Block.halves_of_split hs
      obtain ⟨hfirst, hsecond⟩ := Block.Sound.splitStable hb trivial hv
      obtain ⟨⟨s', outcome⟩, hcourse⟩ := ih (h.giveWay a) hfirst (between_giveWay hl hv)
      cases outcome with
      | error err => exact ⟨_, .stuck hl hs ht hcourse⟩
      | ok u =>
        have hins := hcourse.insert_eq
        have hapart := h.apart_second hb hl hv (by rw [hins])
        have hsound := (h.giveWay a).insert hfirst
        rw [hins] at hapart hsound
        exact ⟨_, .split hl hs ht hcourse (hsound.turn_of_apart hsecond hapart)⟩

theorem Sound.course_insert (h : s.Sound) (hb : b.Sound) : Course s b (s.insert b) := by
  obtain ⟨r, hr⟩ := h.exists_course hb
  rw [hr.insert_eq]
  exact hr

end Store

end FlowRecovery
