/-
On every path temporaries are defined before they are read.

The check of a function only asks that what is read is defined somewhere in it.  Along a
path more is true.  The code of a block reads what it defined itself, since its body did
so before it was renumbered and the ending only reads the branch besides.  A block
through which control leaves for a computed target reads a temporary of the block that it
is there for; no other block names it, so on a path that one comes right before it.

* `readsDefined_emit` — the code of a block defines what it reads;
* `readsDefined_of_goes` — a block reads what the block before it on a path, or itself,
  defined;
* `readsDefined_of_chain`, `readsDefined_of_path` — the same along a path, by induction.
-/
import FlowRecovery.Proofs.Assembly.Edges
import Mathlib.Data.List.Chain

namespace FlowRecovery

/-- A way through the function from its first block on. -/
structure Func.Path (f : Func) (path : List CodeBlock) : Prop where
  start : path.head? = f.blocks.head?
  chain : path.IsChain f.Goes

namespace Assembly

variable {entry : Addr} {members : AddrSet} {b : Block} {s s' : Assembly} {code e : CodeBlock}
  {known : List Temp}

/-! ### The code of one block -/

theorem readsDefined_leave {target : Operand} (h : ∀ t, target.temp? = some t → t ∈ known) :
    ReadsDefined known (leave target) := by
  refine ⟨?_, ?_, trivial⟩
  · intro t ht
    exact h t (by simpa [Inst.uses, Inst.operands] using ht)
  · intro t ht
    cases ht

theorem readsDefined_ret : ReadsDefined known [.ret] := by
  refine ⟨?_, trivial⟩
  intro t ht
  cases ht

theorem readsDefined_transfer (members : AddrSet) (target : Addr) :
    ReadsDefined known (transfer members target) := by
  unfold transfer
  split
  · refine ⟨?_, trivial⟩
    intro t ht
    cases ht
  · exact readsDefined_leave fun t ht => nomatch ht

/-- A choice reads the branch, and then the temporary that it has just defined. -/
theorem readsDefined_choice {target : Operand} {k : Addr} {cond : Temp}
    {thenLabel elseLabel : String} (h : ∀ t, target.temp? = some t → t ∈ known) :
    ReadsDefined known (choice target k cond thenLabel elseLabel) := by
  refine ⟨?_, ?_, trivial⟩
  · intro t ht
    exact h t (by simpa [Inst.uses, Inst.operands, Operand.temp?] using ht)
  · intro t ht
    have htemp : t = cond := by simpa [Inst.uses, Inst.operands, Operand.temp?] using ht
    rw [htemp]
    exact List.mem_append_left _ List.mem_cons_self

theorem Ending.readsDefined {branch : Option Operand} {final : List Inst}
    (h : Ending members b branch s final s')
    (hbranch : ∀ o ∈ branch, ∀ t, o.temp? = some t → t ∈ known) : ReadsDefined known final := by
  cases h with
  | onward h => exact readsDefined_transfer members _
  | depart hk hb => exact readsDefined_leave (hbranch _ hb)
  | ret hk => exact readsDefined_ret
  | between hk ht hb hnext hexits => exact readsDefined_choice (hbranch _ hb)
  | known hk ht hb hnext hexits => exact readsDefined_choice (hbranch _ hb)

/-- The code of a block reads what it defined before, and defines what its branch reads. -/
theorem readsDefined_emit (hb : b.Sound) (h : emit entry members b s = .ok (code, s')) :
    ReadsDefined [] code.insts ∧
      ∀ o ∈ b.body.branchTarget?.map (Operand.mapTemp (· + s.nextTemp)),
        ∀ t, o.temp? = some t → t ∈ definitions code.insts := by
  obtain ⟨inner, target, next, final, hinsts, hinner, rfl, hnext, hcloses, rfl⟩ :=
    exists_of_emit hb h
  have hstraight := straight_renumber hb hinsts hinner hnext
  have hreads : ReadsDefined [] (renumber s.nextTemp inner) := by
    have hbody := hb.lawful.reads
    rw [hinsts, ReadsDefined.append] at hbody
    exact readsDefined_renumber s.nextTemp hbody.1
  constructor
  · refine ReadsDefined.append.mpr ⟨hreads, ?_⟩
    rw [List.append_nil]
    rcases hcloses with ⟨-, rfl, -⟩ | ⟨-, hending⟩
    · exact readsDefined_ret
    · exact (ending_eq_ok hending).readsDefined hstraight.branch
  · intro o ho t ht
    rw [definitions_append]
    exact List.mem_append_left _ (hstraight.branch o ho t ht)

/-- A block through which control leaves reads what the branch reads that it stands for. -/
theorem Serves.readsDefined {base : Temp} (h : Serves b base code e)
    (hbranch : ∀ o ∈ b.body.branchTarget?.map (Operand.mapTemp (· + base)),
      ∀ t, o.temp? = some t → t ∈ known) : ReadsDefined known e.insts := by
  obtain ⟨hdep, -⟩ := h
  cases hdep with
  | known target => exact readsDefined_leave fun t ht => nomatch ht
  | computed htarget => exact readsDefined_leave (hbranch _ htarget)

end Assembly

namespace Func

open Assembly

variable {f : Func} {entry : Addr} {members : AddrSet} {blocks : List Block}
  {codes : List CodeBlock} {last : Assembly}

/-! ### From one block to the next -/

/-- Only the code of a block names other blocks. -/
theorem MadeOf.mem_codes_of_targets (h : f.MadeOf entry members blocks codes last) {c : CodeBlock}
    (hc : c ∈ f.blocks) {l : String} (hl : l ∈ c.targets) : c ∈ codes := by
  rw [h.blocks_eq, List.mem_append] at hc
  refine hc.resolve_right ?_
  intro he
  obtain ⟨source, branch, hdep⟩ := allDepart_of_emitAll h.emitted c he
  cases hdep with
  | known target => simp [CodeBlock.targets, leave, Inst.targets] at hl
  | computed htarget => simp [CodeBlock.targets, leave, Inst.targets] at hl

/-- A block of a function reads what it defines, or what the block defines from which control
came. -/
theorem MadeOf.readsDefined_of_goes (h : f.MadeOf entry members blocks codes last)
    {c d : CodeBlock} (hc : c ∈ f.blocks) (hgoes : f.Goes c d) :
    ReadsDefined (definitions c.insts) d.insts := by
  obtain ⟨hd, hlabel⟩ := hgoes
  have hcode := h.mem_codes_of_targets hc hlabel
  rw [h.blocks_eq, List.mem_append] at hd
  rcases hd with hd | hd
  · obtain ⟨b, -, s₁, s₂, hb, hemit⟩ := h.code_of_mem hd
    exact (readsDefined_emit hb hemit).1.mono (fun t ht => absurd ht List.not_mem_nil)
  · obtain ⟨b, -, code, hmem, s₁, s₂, hb, hemit, hserves⟩ := h.exit_of_mem hd
    obtain ⟨b', -, s₁', s₂', hb', hemit'⟩ := h.code_of_mem hcode
    have hlabels := (mem_targets_emit hb' hemit' d.label).mp hlabel
    -- Both forms of labels tell the block that the exit is there for.
    have haddress : b'.address = b.address := by
      obtain ⟨hdep, -⟩ := hserves
      cases hdep with
      | known target => exact hlabels.of_exitLabel.1.symm
      | computed htarget => exact hlabels.of_indirectLabel.1.symm
    obtain rfl : c = code := by
      refine h.eq_of_label hc (h.blocks_eq ▸ List.mem_append_left _ hmem) ?_
      rw [label_of_emit hemit', label_of_emit hemit, haddress]
    exact hserves.readsDefined (readsDefined_emit hb hemit).2

/-! ### Along a path -/

/-- What is read along a chain of blocks is known, or was defined before. -/
theorem MadeOf.readsDefined_of_chain (h : f.MadeOf entry members blocks codes last)
    {path : List CodeBlock} {known : List Temp} (hchain : path.IsChain f.Goes)
    (hmem : ∀ c ∈ path.head?, c ∈ f.blocks)
    (hhead : ∀ c ∈ path.head?, ReadsDefined known c.insts) :
    ReadsDefined known (path.flatMap (·.insts)) := by
  induction path generalizing known with
  | nil => trivial
  | cons c path ih =>
    rw [List.isChain_cons] at hchain
    rw [List.flatMap_cons, ReadsDefined.append]
    refine ⟨hhead c rfl, ih hchain.2 ?_ ?_⟩
    · intro d hd
      exact (hchain.1 d hd).1
    · intro d hd
      have hreads := h.readsDefined_of_goes (hmem c rfl) (hchain.1 d hd)
      exact hreads.mono fun t ht => List.mem_append_left _ ht

/-- The first block of a function is no block through which control leaves: there is one only
if there is a block that it is there for. -/
theorem MadeOf.head_mem_codes (h : f.MadeOf entry members blocks codes last) {c : CodeBlock}
    (hc : c ∈ f.blocks.head?) : c ∈ codes := by
  rw [h.blocks_eq] at hc
  cases hcodes : codes with
  | nil =>
    rw [hcodes, List.nil_append] at hc
    obtain ⟨-, -, code, hmem, -⟩ := h.exit_of_mem (List.mem_of_head? hc)
    rw [hcodes] at hmem
    cases hmem
  | cons code rest =>
    rw [hcodes] at hc
    cases hc
    exact List.mem_cons_self

/-- What is read along a path was defined before. -/
theorem MadeOf.readsDefined_of_path (h : f.MadeOf entry members blocks codes last)
    {path : List CodeBlock} (hpath : f.Path path) : ReadsDefined [] (path.flatMap (·.insts)) := by
  have hhead : ∀ c ∈ path.head?, c ∈ codes := by
    intro c hc
    rw [hpath.start] at hc
    exact h.head_mem_codes hc
  refine h.readsDefined_of_chain hpath.chain ?_ ?_
  · intro c hc
    rw [h.blocks_eq]
    exact List.mem_append_left _ (hhead c hc)
  · intro c hc
    obtain ⟨b, -, s₁, s₂, hb, hemit⟩ := h.code_of_mem (hhead c hc)
    exact (readsDefined_emit hb hemit).1

end Func

/-- **On every path temporaries are defined before they are read.**  Along a way through an
assembled function, from its first block on and from each block to one that it names,
every temporary that an instruction reads was defined by an earlier instruction of the
same way. -/
theorem Store.Built.defined_on_paths {s : Store} {naming : Naming} {entries : AddrSet}
    {entry : Addr} {f : Func} {path : List CodeBlock} (hs : s.Built)
    (h : s.assemble naming entries entry = .ok f) (hpath : f.Path path) (before after : List Inst)
    (i : Inst) (hcode : path.flatMap (·.insts) = before ++ i :: after) :
    ∀ t ∈ i.uses, ∃ j ∈ before, j.def? = some t := by
  obtain ⟨codes, last, hmade⟩ := hs.sound.madeOf h
  have hreads := hmade.readsDefined_of_path hpath
  rw [hcode, ReadsDefined.append] at hreads
  intro t ht
  have hmem : t ∈ definitions before ++ [] := hreads.2.1 t ht
  rw [List.append_nil] at hmem
  exact List.mem_filterMap.mp hmem

/-- A unit that goes on behind itself or jumps to where a register points. -/
def Lifted.dispatch : Lifted :=
  { address := 16, size := 4, kind := .condJumpIndirect
    body :=
      { insts := [.setPc 16, .readReg 0 "zf", .readReg 1 "rax",
          .select 2 (.temp 0) (.temp 1) (.pc 20), .branch (.temp 2), .exit]
        nextTemp := 3 } }

/-- The block of that unit. -/
def Block.dispatch : Block :=
  { address := 16, size := 4, kind := .condJumpIndirect, successors := .singleton 20
    body :=
      { insts := [.marker 16, .setPc 16, .readReg 0 "zf", .readReg 1 "rax",
          .select 2 (.temp 0) (.temp 1) (.pc 20), .branch (.temp 2), .exit]
        nextTemp := 3 } }

/-- Its code. -/
def CodeBlock.dispatch : CodeBlock :=
  { label := "bb_10"
    insts := [.marker 16, .setPc 16, .readReg 0 "zf", .readReg 1 "rax",
      .select 2 (.temp 0) (.temp 1) (.pc 20), .binary 3 .eq (.temp 2) (.pc 20),
      .condJump (.temp 3) "bb_10_exit_14" "bb_10_indirect"] }

/-- The block through which control leaves for what the register held. -/
def CodeBlock.dispatchIndirect : CodeBlock :=
  { label := "bb_10_indirect", insts := [.jumpMarker (.temp 2), .ret] }

/-- The function of the block. -/
def Func.dispatch : Func :=
  { name := "function_10", address := 16, nextTemp := 4
    blocks := [.dispatch, { label := "bb_10_exit_14", insts := [.jumpMarker (.pc 20), .ret] },
      .dispatchIndirect] }

/-- What the register held is read in the last block, and was defined in the first. -/
theorem Store.defined_on_paths_dispatch :
    ∃ s : Store, Built s ∧ s.assemble {} ∅ 16 = .ok .dispatch ∧
      Func.dispatch.Path [.dispatch, .dispatchIndirect] ∧
      ∃ j ∈ CodeBlock.dispatch.insts, j.def? = some 2 := by
  have hbuilt := Built.empty.insert (show Block.classify .dispatch = .ok .dispatch by decide)
  have hf : (({} : Store).insert .dispatch).1.assemble {} ∅ 16 = .ok .dispatch := by decide +kernel
  have hpath : Func.dispatch.Path [.dispatch, .dispatchIndirect] := by
    refine ⟨rfl, List.isChain_pair.mpr ⟨?_, ?_⟩⟩
    · simp [Func.dispatch]
    · simp [CodeBlock.targets, CodeBlock.dispatch, CodeBlock.dispatchIndirect, Inst.targets]
  exact ⟨_, hbuilt, hf, hpath,
    hbuilt.defined_on_paths hf hpath CodeBlock.dispatch.insts [.ret] (.jumpMarker (.temp 2)) rfl 2
      (by decide)⟩

end FlowRecovery
