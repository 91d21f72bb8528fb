/-
Traces: instructions that follow each other.

A trace from one address to another is what a decoder reads when every instruction
starts where the one before it stops.  There is only one way to go on from an
address, so of two traces from the same address one goes on where the other stops
(`Trace.comparable`).

The instructions of a unit are a trace (`trace_of_unitInsns`), and a unit can be
lifted at each of them: the lifter then reads at least the rest of the unit
(`unitInsns_suffix`), since the later start leaves it as many instructions and no
smaller window.
-/
import FlowRecovery.Proofs.Image.Sections
import FlowRecovery.Proofs.X86.Code

namespace FlowRecovery

/-- Further up in an executable section, the section that is found is executable, too, and
reaches at least as far. -/
def Image.Steady (image : Image) : Prop :=
  ∀ a b s, image.sectionAt? a = some s → s.executable = true → a ≤ b → s.contains b = true →
    ∃ t, image.sectionAt? b = some t ∧ t.executable = true ∧ s.limit ≤ t.limit

theorem Image.SectionsApart.steady {image : Image} (h : image.SectionsApart) : image.Steady := by
  intro a b s hs hx _ hb
  exact ⟨s, h.sectionAt?_eq (List.mem_of_find?_eq_some hs) hb, hx, UInt64.le_refl _⟩

namespace X86

/-- The instructions that are decoded one after the other from an address to another. -/
inductive Trace (decode : Decoder) : Addr → List (Addr × Insn) → Addr → Prop where
  | nil (a : Addr) : Trace decode a [] a
  | cons {a stop : Addr} {i : Insn} {l : List (Addr × Insn)} (hi : decode a = some i)
      (hfits : Fits a i.size) (hl : Trace decode (a + i.size) l stop) :
      Trace decode a ((a, i) :: l) stop

namespace Trace

variable {decode : Decoder} {a b c : Addr} {l m : List (Addr × Insn)}

theorem split (h : Trace decode a (l ++ m) c) : ∃ b, Trace decode a l b ∧ Trace decode b m c := by
  induction l generalizing a with
  | nil => exact ⟨a, .nil a, h⟩
  | cons p l ih =>
    cases h with
    | cons hi hfits h =>
      obtain ⟨b, hl, hm⟩ := ih h
      exact ⟨b, .cons hi hfits hl, hm⟩

/-- A trace that reads something starts with what it reads first. -/
theorem address_eq {p : Addr × Insn} (h : Trace decode a (p :: l) b) : p.1 = a := by
  cases h with
  | cons hi hfits h => rfl

/-- Where a trace stops is determined by what it reads. -/
theorem stop_unique (hb : Trace decode a l b) (hc : Trace decode a l c) : b = c := by
  induction hb with
  | nil a =>
    cases hc with
    | nil => rfl
  | cons hi hfits _ ih =>
    cases hc with
    | cons _ _ hc => exact ih hc

/-- Of two traces from an address, one goes on where the other stops. -/
theorem comparable (hl : Trace decode a l b) (hm : Trace decode a m c) : l <+: m ∨ m <+: l := by
  induction hl generalizing m with
  | nil a => exact Or.inl List.nil_prefix
  | cons hi hfits _ ih =>
    cases hm with
    | nil => exact Or.inr List.nil_prefix
    | cons hi' hfits' hm =>
      obtain rfl := Option.some.inj (hi.symm.trans hi')
      exact (ih hm).imp (List.cons_prefix_cons.mpr ⟨rfl, ·⟩) (List.cons_prefix_cons.mpr ⟨rfl, ·⟩)

theorem decode_eq {p : Addr × Insn} (h : Trace decode a l b) (hp : p ∈ l) :
    decode p.1 = some p.2 := by
  induction h with
  | nil => cases hp
  | cons hi hfits _ ih =>
    rcases List.mem_cons.mp hp with rfl | hp
    · exact hi
    · exact ih hp

theorem le_stop (h : Trace decode a l b) : a.toNat ≤ b.toNat := by
  induction h with
  | nil => exact Nat.le_refl _
  | cons hi hfits _ ih =>
    rw [toNat_add_of_fits hfits] at ih
    omega

/-- What a trace reads lies between where it starts and where it stops. -/
theorem within {p : Addr × Insn} (h : Trace decode a l b) (hp : p ∈ l) :
    a.toNat ≤ p.1.toNat ∧ p.1.toNat + p.2.size.toNat ≤ b.toNat := by
  induction h with
  | nil => cases hp
  | cons hi hfits hl ih =>
    have hnext := toNat_add_of_fits hfits
    rcases List.mem_cons.mp hp with rfl | hp
    · exact ⟨Nat.le_refl _, hnext ▸ hl.le_stop⟩
    · obtain ⟨hlow, hhigh⟩ := ih hp
      exact ⟨by omega, hhigh⟩

/-- If instructions take space, a trace goes upwards. -/
theorem increasing (hsize : ∀ a i, decode a = some i → 0 < i.size) (h : Trace decode a l b) :
    (l.map (·.1)).Pairwise (· < ·) := by
  induction h with
  | nil => exact .nil
  | @cons a stop i l hi hfits hl ih =>
    refine .cons (fun pc hpc => ?_) ih
    obtain ⟨p, hp, rfl⟩ := List.mem_map.mp hpc
    have hlow := (hl.within hp).1
    have hpos : 0 < i.size.toNat := UInt64.lt_iff_toNat_lt.mp (hsize a i hi)
    rw [toNat_add_of_fits hfits] at hlow
    rw [UInt64.lt_iff_toNat_lt]
    show a.toNat < _
    omega

/-- So no address is read twice. -/
theorem nodup (hsize : ∀ a i, decode a = some i → 0 < i.size) (h : Trace decode a l b) :
    (l.map (·.1)).Nodup :=
  (h.increasing hsize).imp fun hlt => UInt64.ne_of_lt hlt

end Trace

section Insns

variable {decode : Decoder} {bound bound' n n' : Nat} {a : Addr}

/-- The instructions read up to a bound that is a word are a trace. -/
theorem trace_insns (hbound : bound < 0x10000000000000000) :
    Trace decode a (insns decode bound n a) (behind a (insns decode bound n a)) := by
  fun_induction insns decode bound n a with
  | case1 a => exact .nil a
  | case2 n a hi => exact .nil a
  | case3 n a i hi hle ih =>
    have hfits : Fits a i.size := Nat.lt_of_le_of_lt hle hbound
    rw [behind_cons]
    split
    · exact .cons hi hfits (.nil _)
    · exact .cons hi hfits ih
  | case4 n a i hi hle => exact .nil a

/-- Reading goes on only behind an instruction that ends no unit. -/
theorem onlyLastEnds_insns : OnlyLastEnds (insns decode bound n a) := by
  fun_induction insns decode bound n a with
  | case1 a => exact .nil
  | case2 n a hi => exact .nil
  | case3 n a i hi hle ih =>
    split
    · exact List.pairwise_singleton _ _
    · next hends => exact .cons (fun _ _ => Bool.eq_false_iff.mpr hends) ih
  | case4 n a i hi hle => exact .nil

theorem insns_le {p : Addr × Insn} (hp : p ∈ insns decode bound n a) :
    p.1.toNat + p.2.size.toNat ≤ bound := by
  fun_induction insns decode bound n a with
  | case1 a => cases hp
  | case2 n a hi => cases hp
  | case3 n a i hi hle ih =>
    rcases List.mem_cons.mp hp with rfl | hp
    · exact hle
    · split at hp
      · cases hp
      · exact ih hp
  | case4 n a i hi hle => cases hp

/-- A greater number and a greater bound only let the reading go on. -/
theorem insns_mono (hn : n ≤ n') (hbound : bound ≤ bound') :
    insns decode bound n a <+: insns decode bound' n' a := by
  fun_induction insns decode bound n a generalizing n' with
  | case1 a => exact List.nil_prefix
  | case2 n a hi => exact List.nil_prefix
  | case3 n a i hi hle ih =>
    obtain ⟨m, rfl⟩ := Nat.exists_eq_add_of_lt hn
    rw [show n + m + 1 = (n + m) + 1 from rfl]
    simp only [insns, hi, Nat.le_trans hle hbound, if_true]
    refine List.cons_prefix_cons.mpr ⟨rfl, ?_⟩
    split
    · exact List.nil_prefix
    · exact ih (Nat.le_add_right n m)
  | case4 n a i hi hle => exact List.nil_prefix

theorem insns_eq_cons {p : Addr × Insn} {l : List (Addr × Insn)}
    (h : insns decode bound n a = p :: l) :
    p.1 = a ∧ ∃ m ≤ n, l = [] ∨ l = insns decode bound m (a + p.2.size) := by
  cases n with
  | zero => cases h
  | succ n =>
    rw [insns] at h
    split at h
    · cases h
    · split at h
      · cases h
        refine ⟨rfl, n, Nat.le_succ n, ?_⟩
        split
        · exact Or.inl rfl
        · exact Or.inr rfl
      · cases h

/-- Reading anew from an instruction that was read yields at least the rest. -/
theorem insns_suffix {p : Addr × Insn} {l m : List (Addr × Insn)} (hn : n ≤ n')
    (hbound : bound ≤ bound') (h : insns decode bound n a = l ++ p :: m) :
    p :: m <+: insns decode bound' n' p.1 := by
  induction l generalizing n a with
  | nil =>
    rw [List.nil_append] at h
    rw [← h, (insns_eq_cons h).1]
    exact insns_mono hn hbound
  | cons q l ih =>
    obtain ⟨-, k, hk, hl | hl⟩ := insns_eq_cons h
    · exact absurd hl (by simp)
    · exact ih (Nat.le_trans hk hn) hl.symm

end Insns

section Unit

variable {decode : Decoder} {image : Image} {limit : Nat} {s : Section} {a : Addr}
  {l : List (Addr × Insn)}

/-- An address in the section is as far from its limit as their numbers are. -/
theorem toNat_sub_limit (ha : s.contains a = true) :
    s.address.toNat ≤ a.toNat ∧ a.toNat < s.limit.toNat ∧
      (s.limit - a).toNat = s.limit.toNat - a.toNat := by
  obtain ⟨hlow, hhigh⟩ := Bool.and_eq_true_iff.mp ha
  have hlow := UInt64.le_iff_toNat_le.mp (of_decide_eq_true hlow)
  have hhigh := UInt64.lt_iff_toNat_lt.mp (of_decide_eq_true hhigh)
  refine ⟨hlow, hhigh, UInt64.toNat_sub_of_le _ _ (UInt64.le_iff_toNat_le.mpr ?_)⟩
  exact Nat.le_of_lt hhigh

/-- The window of a unit lies in the section, and can be read. -/
theorem readable?_window (hs : image.sectionAt? a = some s) :
    image.readable? a (window s limit a) = some s := by
  obtain ⟨hlow, hhigh, hsub⟩ := toNat_sub_limit (Image.contains_of_sectionAt? hs)
  have hlimit := toNat_saturatingAdd s.address s.size
  rw [← Section.limit] at hlimit
  have hoffset := UInt64.toNat_sub_of_le _ _ (UInt64.le_iff_toNat_le.mpr hlow)
  have hwindow : window s limit a ≤ (s.limit - a).toNat := Nat.min_le_left _ _
  rw [Image.readable?, hs, Option.filter_some, if_pos]
  rw [decide_eq_true_iff]
  omega

/-- What the lifter reads for a unit. -/
theorem unitInsns_eq_ok :
    unitInsns decode image limit a = .ok l ↔
      ∃ s, image.sectionAt? a = some s ∧ s.executable = true ∧
        insns decode (a.toNat + window s limit a) limit a = l ∧ l ≠ [] := by
  unfold unitInsns
  cases hs : image.sectionAt? a with
  | none => exact ⟨nofun, nofun⟩
  | some s =>
    rw [Option.filter_some]
    cases hx : s.executable with
    | false =>
      refine ⟨nofun, ?_⟩
      rintro ⟨t, ht, htx, -⟩
      cases ht
      rw [hx] at htx
      cases htx
    | true =>
      simp only [if_true, readable?_window hs, Option.isNone_some, Bool.false_eq_true, if_false]
      constructor
      · intro h
        split at h
        · cases h
        · next hne =>
          cases h
          exact ⟨s, rfl, hx, rfl, hne⟩
      · rintro ⟨t, ht, -, rfl, hne⟩
        cases ht
        split
        · next hnil => exact absurd hnil hne
        · rfl

theorem lift_eq_ok {u : Lifted} : lift decode image limit a = .ok u ↔
    ∃ l, unitInsns decode image limit a = .ok l ∧ unitOf image.arch a l = u :=
  Checked.map_eq_ok

/-- The instructions of a unit are a trace, of which only the last may end a unit. -/
theorem trace_of_unitInsns (h : unitInsns decode image limit a = .ok l) :
    Trace decode a l (behind a l) ∧ OnlyLastEnds l ∧ l ≠ [] := by
  obtain ⟨s, hs, -, rfl, hne⟩ := unitInsns_eq_ok.mp h
  obtain ⟨-, hhigh, hsub⟩ := toNat_sub_limit (Image.contains_of_sectionAt? hs)
  have hwindow : window s limit a ≤ (s.limit - a).toNat := Nat.min_le_left _ _
  have hlimit := s.limit.toNat_lt
  exact ⟨trace_insns (by omega), onlyLastEnds_insns, hne⟩

/-- Lifting at an instruction of a unit reads at least the rest of the unit. -/
theorem unitInsns_suffix (hsize : ∀ a i, decode a = some i → 0 < i.size)
    (hsteady : image.Steady) {p : Addr × Insn} {m : List (Addr × Insn)}
    (h : unitInsns decode image limit a = .ok (l ++ p :: m)) :
    ∃ m', unitInsns decode image limit p.1 = .ok m' ∧ p :: m <+: m' := by
  have hp : p ∈ l ++ p :: m := List.mem_append_right l List.mem_cons_self
  obtain ⟨htrace, -, -⟩ := trace_of_unitInsns h
  have hlow := (htrace.within hp).1
  have hpos : 0 < p.2.size.toNat := UInt64.lt_iff_toNat_lt.mp (hsize _ _ (htrace.decode_eq hp))
  obtain ⟨s, hs, hx, hread, -⟩ := unitInsns_eq_ok.mp h
  obtain ⟨hstart, hhigh, hsub⟩ := toNat_sub_limit (Image.contains_of_sectionAt? hs)
  have hbound := insns_le (hread ▸ hp)
  have hwindow : window s limit a ≤ (s.limit - a).toNat := Nat.min_le_left _ _
  -- The instruction lies in the section of the unit, so what is found there reaches as far.
  have hps : s.contains p.1 = true := by
    refine Bool.and_eq_true_iff.mpr ⟨decide_eq_true ?_, decide_eq_true ?_⟩
    · exact UInt64.le_iff_toNat_le.mpr (Nat.le_trans hstart hlow)
    · exact UInt64.lt_iff_toNat_lt.mpr (by omega)
  obtain ⟨t, hat, htx, hlimit⟩ := hsteady a p.1 s hs hx (UInt64.le_iff_toNat_le.mpr hlow) hps
  obtain ⟨-, -, hsub'⟩ := toNat_sub_limit (Image.contains_of_sectionAt? hat)
  have hlimit := UInt64.le_iff_toNat_le.mp hlimit
  have hgrow : a.toNat + window s limit a ≤ p.1.toNat + window t limit p.1 := by
    unfold window
    omega
  have hpre := insns_suffix (Nat.le_refl limit) hgrow hread
  refine ⟨_, unitInsns_eq_ok.mpr ⟨t, hat, htx, rfl, ?_⟩, hpre⟩
  intro hnil
  rw [hnil] at hpre
  cases List.prefix_nil.mp hpre

end Unit

end X86

end FlowRecovery
