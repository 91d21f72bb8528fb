/-
What assembled functions consist of.

The code of a function is the renumbered code of its blocks, without their raw ends, and
what assembly puts in the places of these.  The blocks of a function are different blocks
of the store, so no machine instruction stands in a function twice.

* `Func.MadeOf.insts_of_mem` — the code of each block of a function;
* `Store.Sound.markers_disjoint` — two blocks of a store have no instruction in common;
* `Func.MadeOf.markers_eq`, `Store.Sound.nodup_markers` — the markers of a function are those
  of its blocks, and are all different.
-/
import FlowRecovery.Proofs.Assembly.Paths

namespace FlowRecovery

open Body (rawEnd)

/-- Whether assembly puts the instruction at the ends of blocks. -/
def Inst.isAdded : Inst → Bool
  | .binary _ _ _ _ => true
  | .jump _ => true
  | .condJump _ _ _ => true
  | .jumpMarker _ => true
  | .ret => true
  | _ => false

theorem Inst.marker?_of_isAdded {i : Inst} (h : i.isAdded = true) : i.marker? = none := by
  cases i <;> first | rfl | cases h

theorem markers_of_isAdded {insts : List Inst} (h : ∀ i ∈ insts, i.isAdded = true) :
    markers insts = [] :=
  List.filterMap_eq_nil_iff.mpr fun i hi => Inst.marker?_of_isAdded (h i hi)

theorem Inst.marker?_mapTemps (f : Temp → Temp) (i : Inst) :
    (i.mapTemps f).marker? = i.marker? := by
  cases i with
  | call callee state => cases callee <;> rfl
  | _ => rfl

theorem markers_renumber (base : Temp) (insts : List Inst) :
    markers (renumber base insts) = markers insts := by
  rw [markers, renumber, List.filterMap_map]
  exact List.filterMap_congr fun i _ => Inst.marker?_mapTemps _ i

theorem isAdded_leave (target : Operand) : ∀ i ∈ leave target, i.isAdded = true := by
  intro i hi
  rcases List.mem_pair.mp hi with rfl | rfl <;> rfl

theorem Departure.isAdded {source : Addr} {branch : Option Operand} {e : CodeBlock}
    (h : Departure source branch e) : ∀ i ∈ e.insts, i.isAdded = true := by
  cases h with
  | known target => exact isAdded_leave _
  | computed _ => exact isAdded_leave _

namespace Assembly

variable {entry : Addr} {members : AddrSet} {b : Block} {branch : Option Operand}
  {s s' last : Assembly} {final : List Inst} {blocks : List Block} {codes : List CodeBlock}

theorem Ending.isAdded (h : Ending members b branch s final s') :
    ∀ i ∈ final, i.isAdded = true := by
  intro i hi
  cases h with
  | onward =>
    unfold transfer at hi
    split at hi
    · rw [List.mem_singleton.mp hi]
      rfl
    · exact isAdded_leave _ i hi
  | depart => exact isAdded_leave _ i hi
  | ret =>
    rw [List.mem_singleton.mp hi]
    rfl
  | between => rcases List.mem_pair.mp hi with rfl | rfl <;> rfl
  | known => rcases List.mem_pair.mp hi with rfl | rfl <;> rfl

theorem Closes.isAdded (h : Closes entry members b branch s final s') :
    ∀ i ∈ final, i.isAdded = true := by
  rcases h with ⟨-, rfl, -⟩ | ⟨-, h⟩
  · intro i hi
    rw [List.mem_singleton.mp hi]
    rfl
  · exact (ending_eq_ok h).isAdded

/-- The markers of emitted blocks are those of the blocks. -/
theorem markers_emitAll (hb : ∀ b ∈ blocks, b.Sound)
    (h : emitAll entry members s blocks = .ok (codes, last)) :
    markers (codeOf codes) = blocks.flatMap fun b => markers b.body.insts := by
  induction blocks generalizing s codes with
  | nil =>
    cases h
    rfl
  | cons b blocks ih =>
    obtain ⟨hsound, hb⟩ := List.forall_mem_cons.mp hb
    obtain ⟨⟨code, s₁⟩, hcode, h⟩ := Checked.bind_eq_ok.mp h
    obtain ⟨⟨codes', s₂⟩, hcodes, h⟩ := Checked.bind_eq_ok.mp h
    cases h
    obtain ⟨inner, target, next, final, hinsts, -, -, -, hcloses, rfl⟩ :=
      exists_of_emit hsound hcode
    have hraw : markers (rawEnd target) = [] := by cases target <;> rfl
    show markers ((renumber s.nextTemp inner ++ final) ++ codeOf codes') = _
    rw [markers_append, markers_append, markers_renumber, markers_of_isAdded hcloses.isAdded,
      ih hb hcodes, List.flatMap_cons, hinsts, markers_append, hraw]

end Assembly

namespace Func.MadeOf

open Assembly

variable {f : Func} {entry : Addr} {members : AddrSet} {blocks : List Block}
  {codes : List CodeBlock} {last : Assembly}

/-- A block of a function is the code of one of the blocks, or control leaves through it. -/
theorem insts_of_mem (h : f.MadeOf entry members blocks codes last) {c : CodeBlock}
    (hc : c ∈ f.blocks) :
    (∃ b ∈ blocks, ∃ base inner target final, b.body.insts = inner ++ rawEnd target ∧
      (∀ i ∈ inner, i.isInner = true) ∧ c.insts = renumber base inner ++ final ∧
      (∀ i ∈ final, i.isAdded = true) ∧ ReadsDefined [] c.insts) ∨
    ∀ i ∈ c.insts, i.isAdded = true := by
  rw [h.blocks_eq] at hc
  rcases List.mem_append.mp hc with hc | hc
  · obtain ⟨b, hb, s₁, s₂, hsound, hemit⟩ := h.code_of_mem hc
    have hreads := (readsDefined_emit hsound hemit).1
    obtain ⟨inner, target, next, final, hinsts, hinner, -, -, hcloses, rfl⟩ :=
      exists_of_emit hsound hemit
    exact Or.inl ⟨b, hb, s₁.nextTemp, inner, target, final, hinsts, hinner, rfl,
      hcloses.isAdded, hreads⟩
  · obtain ⟨b, -, code, -, s₁, s₂, -, -, hserves⟩ := h.exit_of_mem hc
    exact Or.inr hserves.departs.isAdded

theorem markers_eq (h : f.MadeOf entry members blocks codes last) :
    markers f.insts = blocks.flatMap fun b => markers b.body.insts := by
  have hexits : markers (codeOf last.exits) = [] := by
    refine markers_of_isAdded fun i hi => ?_
    obtain ⟨e, he, hi⟩ := List.mem_flatMap.mp hi
    obtain ⟨b, -, code, -, s₁, s₂, -, -, hserves⟩ := h.exit_of_mem he
    exact hserves.departs.isAdded i hi
  rw [Func.insts, h.blocks_eq, List.flatMap_append, markers_append, hexits, List.append_nil]
  exact markers_emitAll h.sound h.emitted

end Func.MadeOf

namespace Store.Sound

variable {s : Store} {b c : Block}

/-- Two blocks of a store have no machine instruction in common. -/
theorem markers_disjoint (hs : s.Sound) (hb : s.get? b.address = some b)
    (hc : s.get? c.address = some c) (hne : b.address ≠ c.address) :
    List.Disjoint (markers b.body.insts) (markers c.body.insts) := by
  -- The one that starts first ends before the other starts.
  have hlt : ∀ {b c : Block}, s.get? b.address = some b → s.get? c.address = some c →
      b.address < c.address → ∀ a ∈ markers b.body.insts, a ∉ markers c.body.insts := by
    intro b c hb hc hlt a hab hac
    have hsound := hs.blocks _ b hb
    have hend := hs.apart _ _ b hb (contains_iff.mpr ⟨c, hc⟩) hlt
    have hstop : (saturatingAdd b.address b.size).toNat = b.stop := by
      rw [Body.saturatingAdd_eq (toNat_add_of_fits hsound.fits).symm, toNat_add_of_fits hsound.fits]
      rfl
    have hbelow := UInt64.lt_iff_toNat_lt.mp (hsound.lawful.inside a hab).2
    have habove := UInt64.le_iff_toNat_le.mp ((hs.blocks _ c hc).lawful.inside a hac).1
    omega
  intro a hab hac
  rcases UInt64.lt_or_lt_of_ne hne with h | h
  · exact hlt hb hc h a hab hac
  · exact hlt hc hb h a hac hab

/-- No machine instruction stands in an assembled function twice. -/
theorem nodup_markers (hs : s.Sound) {naming : Naming} {entries : AddrSet} {entry : Addr} {f : Func}
    (h : s.assemble naming entries entry = .ok f) : (markers f.insts).Nodup := by
  obtain ⟨codes, last, hmade⟩ := hs.madeOf h
  have hget : ∀ b ∈ s.functionBlocks entries entry, s.get? b.address = some b := by
    intro b hb
    obtain ⟨a, -, ha⟩ := mem_functionBlocks.mp hb
    rwa [hs.keyed a b ha]
  rw [hmade.markers_eq, List.nodup_flatMap]
  constructor
  · intro b hb
    exact (hmade.sound b hb).lawful.increasing.imp fun hlt heq => UInt64.ne_of_lt hlt heq
  · refine (List.pairwise_map.mp hmade.nodup).imp_of_mem fun hb hc hne => ?_
    exact hs.markers_disjoint (hget _ hb) (hget _ hc) hne

end Store.Sound

end FlowRecovery
