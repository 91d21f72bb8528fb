/-
The text of a module reads back as the module.

A value that is part of a choice is taken over as a whole before it is read, so it has to
be `settled`: its numbers are in range, and it is not nested too deeply.

* `inRange_toDigits` — words are in range;
* `tagged?_choice`, `list?_list` — choices and lists are read as they were written;
* `Operand.ofNested?_toJson` and its like — one lemma for each type of the module;
* `Module.parse?_pretty` — whole texts, by `Json.parse?_pretty`;
* `OutputLayout.module_of_writeArtifacts` — the file that the results of a run go to.
-/
import FlowRecovery.Module.Codec
import FlowRecovery.Output
import FlowRecovery.Proofs.Json.RoundTrip
import Mathlib.Data.List.Nodup

namespace FlowRecovery

namespace Json

/-! ### Numbers in range -/

theorem extend_eq {n : Nat} {ds : List Char} (h : Nat.ofDigitChars 10 ds n < UInt64.size) :
    extend n ds = (Nat.ofDigitChars 10 ds n, 0) := by
  induction ds generalizing n with
  | nil => rfl
  | cons d ds ih =>
    rw [Nat.ofDigitChars_cons, Nat.mul_comm] at h ⊢
    -- Further digits make a number no smaller.
    have hle : n * 10 + (d.toNat - '0'.toNat) ≤
        Nat.ofDigitChars 10 ds (n * 10 + (d.toNat - '0'.toNat)) := by
      rw [Nat.ofDigitChars_eq_ofDigitChars_zero]
      have hpow : 0 < 10 ^ ds.length := Nat.pow_pos (by omega)
      have hmul := Nat.le_mul_of_pos_left (n * 10 + (d.toNat - '0'.toNat)) hpow
      omega
    rw [extend, if_pos (by omega), ih h]

theorem roundBinary_le (n : Nat) : roundBinary n ≤ 2 * n := by
  unfold roundBinary
  split
  · omega
  · next hlog =>
    have hn : n ≠ 0 := by
      rintro rfl
      exact hlog (by decide)
    have hunit : Nat.pow 2 (n.log2 - 52) ≤ n :=
      Nat.le_trans (Nat.pow_le_pow_right (by decide) (Nat.sub_le n.log2 52)) (Nat.log2_self_le hn)
    have hdiv : n / Nat.pow 2 (n.log2 - 52) * Nat.pow 2 (n.log2 - 52) ≤ n := Nat.div_mul_le_self _ _
    simp only
    split
    · omega
    · rw [Nat.add_mul]
      omega

/-- Words are in the range of numbers that can be taken over. -/
theorem inRange_toDigits {n : Nat} (h : n < UInt64.size) :
    inRange (Nat.toDigits 10 n) [] [] = true := by
  have hextend : extend 0 (Nat.toDigits 10 n) = (n, 0) := by
    rw [extend_eq (by rwa [Nat.ofDigitChars_ten_toDigits]), Nat.ofDigitChars_ten_toDigits]
  have hround : roundBinary n * roundBinary 1 < rangeLimit := by
    have hle := roundBinary_le n
    have hsize : 2 * UInt64.size < rangeLimit := by decide +kernel
    have hone : roundBinary 1 = 1 := by decide
    rw [hone]
    omega
  have hscaled : scaledInRange n 0 = true := by
    have hpow : Nat.pow 10 (0 : Int).toNat = 1 := rfl
    rw [scaledInRange, hpow]
    simp [hround]
  simp [inRange, hextend, extend, exponentParts, hscaled]

/-! ### Values that can be taken over -/

theorem settled_word (outer : Nat) (w : Word) : settled outer (word w) = true :=
  inRange_toDigits w.toNat_lt

theorem settled_temp (outer : Nat) (t : Temp) : settled outer (temp t) = true :=
  inRange_toDigits (Nat.lt_trans t.toNat_lt (by decide))

theorem settled_byte (outer : Nat) (b : UInt8) : settled outer (byte b) = true :=
  inRange_toDigits (Nat.lt_trans b.toNat_lt (by decide))

theorem settled_choice {outer : Nat} {tag name : String} {fields : List (String × Json)}
    (h : outer < nestingLimit) (hfields : settledMembers (outer + 1) fields = true) :
    settled outer (choice tag name fields) = true := by
  simp [choice, settled, settledMembers, h, hfields]

theorem settled_list {α : Type} {outer : Nat} {f : α → Json} {l : List α} (h : outer < nestingLimit)
    (hf : ∀ a, settled (outer + 1) (f a) = true) : settled outer (list f l) = true := by
  have hitems : settledItems (outer + 1) (l.map f) = true := by
    induction l with
    | nil => rfl
    | cons a l ih => simp [settledItems, hf, ih]
  simp [list, settled, h, hitems]

theorem plain_list {α : Type} {f : α → Json} {l : List α} (hf : ∀ a, plain (f a) = true) :
    plain (list f l) = true := by
  show plainItems (l.map f) = true
  induction l with
  | nil => rfl
  | cons a l ih => simp [plainItems, hf, ih]

/-! ### Reading fields -/

@[simp] theorem word?_word (w : Word) : word? (word w) = some w := by
  have hlt : w.toNat < UInt64.size := w.toNat_lt
  simp [word?, word, natBelow?, hlt]

@[simp] theorem word32?_temp (t : Temp) : word32? (temp t) = some t := by
  have hlt : t.toNat < UInt32.size := t.toNat_lt
  simp [word32?, temp, natBelow?, hlt]

@[simp] theorem byte?_byte (b : UInt8) : byte? (byte b) = some b := by
  have hlt : b.toNat < UInt8.size := b.toNat_lt
  simp [byte?, byte, natBelow?, hlt]

@[simp] theorem str?_str (s : String) : str? (.str s) = some s := rfl

@[simp] theorem bool?_bool (b : Bool) : bool? (.bool b) = some b := rfl

theorem list?_list {α : Type} {read : Json → Option α} {f : α → Json}
    (h : ∀ a, read (f a) = some a) (l : List α) : list? read (list f l) = some l := by
  show (l.map f).mapM read = some l
  induction l with
  | nil => rfl
  | cons a l ih => simp [h, ih]

theorem nullable_opt {α : Type} {read : Json → Option α} {f : α → Json}
    (h : ∀ a, read (f a) = some a) (hnull : read .null = none) (x : Option α) :
    nullable read (opt f x) = some x := by
  cases x with
  | none => rfl
  | some a =>
    show nullable read (f a) = some (some a)
    unfold nullable
    split
    · next heq =>
      have hread := h a
      rw [heq, hnull] at hread
      cases hread
    · rw [h a, Option.map_some]

/-- A choice is taken apart into its name and its other fields, if none of them has the name of
the tag. -/
theorem split?_choice {tag name : String} {fields : List (String × Json)}
    (h : ∀ m ∈ fields, m.1 ≠ tag) :
    (choice tag name fields).split? tag = some (.str name, .obj fields) := by
  have hcount : occurrences tag ((tag, .str name) :: fields) = 1 := by
    have hnone : fields.countP (·.1 == tag) = 0 :=
      List.countP_eq_zero.mpr fun m hm => by simp [h m hm]
    rw [occurrences, List.countP_cons, hnone]
    simp
  have hfilter : fields.filter (·.1 != tag) = fields :=
    List.filter_eq_self.mpr fun m hm => by simp [h m hm]
  simp [choice, split?, hcount, hfilter]

theorem tagged?_choice {tag name : String} {names : List String} {fields : List (String × Json)}
    (h : ∀ m ∈ fields, m.1 ≠ tag) :
    (choice tag name fields).tagged? tag names = some (name, .obj fields) := by
  rw [tagged?, split?_choice h]
  rfl

end Json

open Json

namespace Operand

theorem settled_toJson (o : Operand) {outer : Nat} (h : outer < nestingLimit) :
    settled outer o.toJson = true := by
  cases o <;> refine settled_choice h ?_ <;>
    simp [settledMembers, settled_word, settled_temp, settled]

theorem plain_toJson (o : Operand) : plain o.toJson = true := by
  cases o <;> rfl

@[simp] theorem ofNested?_toJson (o : Operand) : ofNested? o.toJson = some o := by
  cases o <;>
    rw [toJson, ofNested?, tagged?_choice (by simp), Option.bind_eq_bind, Option.bind_some] <;>
    simp [fields?, occurrences, Fields.required, List.lookup_cons]

end Operand

@[simp] theorem BinOp.ofNested?_name (op : BinOp) : BinOp.ofNested? (.str op.name) = some op := by
  cases op <;> rfl

@[simp] theorem Convention.ofNested?_toJson (c : Convention) :
    Convention.ofNested? c.toJson = some c := by
  cases c <;> rfl

namespace Callee

theorem settled_toJson (c : Callee) {outer : Nat} (h : outer + 1 < nestingLimit) :
    settled outer c.toJson = true := by
  have houter : outer < nestingLimit := by omega
  cases c <;> refine settled_choice houter ?_ <;>
    simp [settledMembers, settled_word, Operand.settled_toJson _ h, settled]

theorem plain_toJson (c : Callee) : plain c.toJson = true := by
  cases c with
  | indirect target => simp [toJson, choice, plain, plainMembers, Operand.plain_toJson]
  | _ => rfl

@[simp] theorem ofNested?_toJson (c : Callee) : ofNested? c.toJson = some c := by
  cases c <;>
    rw [toJson, ofNested?, tagged?_choice (by simp), Option.bind_eq_bind, Option.bind_some] <;>
    simp [fields?, occurrences, Fields.required, List.lookup_cons]

end Callee

namespace Inst

/-- An instruction has operands inside a callee or a list, and so two levels of values. -/
theorem settled_toJson (i : Inst) {outer : Nat} (h : outer + 2 < nestingLimit) :
    settled outer i.toJson = true := by
  have houter : outer < nestingLimit := by omega
  have hinner : outer + 1 < nestingLimit := by omega
  cases i <;> refine settled_choice houter ?_
  case helper dst name args =>
    have hargs : settled (outer + 1) (list Operand.toJson args) = true :=
      settled_list hinner fun o => o.settled_toJson h
    cases dst <;> simp [settledMembers, opt, settled_temp, hargs, settled]
  case importCall name library convention =>
    cases library <;> cases convention <;> simp [settledMembers, opt, Convention.toJson, settled]
  all_goals
    simp [settledMembers, settled_word, settled_temp, settled_byte, Operand.settled_toJson _ hinner,
      Callee.settled_toJson _ h, settled]

theorem plain_toJson (i : Inst) : plain i.toJson = true := by
  cases i with
  | helper dst name args =>
    have hargs : plain (list Operand.toJson args) = true := plain_list Operand.plain_toJson
    cases dst <;> simp [toJson, choice, plain, plainMembers, opt, temp, hargs]
  | importCall name library convention =>
    cases library <;> cases convention <;> rfl
  | _ =>
    simp [toJson, choice, plain, plainMembers, word, temp, byte, Operand.plain_toJson,
      Callee.plain_toJson]

theorem ofNested?_toJson (i : Inst) : ofNested? i.toJson = some i := by
  cases i <;>
    rw [toJson, ofNested?, tagged?_choice (by simp), Option.bind_eq_bind, Option.bind_some]
  case helper dst name args =>
    simp [fields?, occurrences, Fields.required, Fields.optional, List.lookup_cons,
      nullable_opt word32?_temp rfl, list?_list Operand.ofNested?_toJson]
  case importCall name library convention =>
    simp [fields?, occurrences, Fields.required, Fields.optional, List.lookup_cons,
      nullable_opt str?_str rfl]
  all_goals simp [fields?, occurrences, Fields.required, List.lookup_cons]

theorem ofJsonIn?_toJson (i : Inst) {outer : Nat} (h : outer + 2 < nestingLimit) :
    ofJsonIn? outer i.toJson = some i := by
  -- The tag is given by name.
  have hsplit : ∃ name rest, i.toJson.split? "inst" = some (.str name, rest) := by
    cases i <;> exact ⟨_, _, split?_choice (by simp)⟩
  obtain ⟨name, rest, hsplit⟩ := hsplit
  rw [ofJsonIn?, outermost?, i.settled_toJson h, hsplit]
  exact i.ofNested?_toJson

end Inst

/-! ### Records -/

theorem CodeBlock.ofJsonIn?_toJson (b : CodeBlock) {outer : Nat} (h : outer + 4 < nestingLimit) :
    CodeBlock.ofJsonIn? outer b.toJson = some b := by
  have hinsts : ∀ l : List Inst, list? (Inst.ofJsonIn? (outer + 2)) (list Inst.toJson l) = some l :=
    list?_list fun i => i.ofJsonIn?_toJson h
  simp [ofJsonIn?, toJson, fields?, occurrences, Fields.required, List.lookup_cons, hinsts]

theorem CodeBlock.plain_toJson (b : CodeBlock) : plain b.toJson = true := by
  have hinsts : plain (list Inst.toJson b.insts) = true := plain_list Inst.plain_toJson
  simp [toJson, plain, plainMembers, hinsts]

theorem Func.ofJsonIn?_toJson (f : Func) {outer : Nat} (h : outer + 6 < nestingLimit) :
    Func.ofJsonIn? outer f.toJson = some f := by
  have hblocks : ∀ l : List CodeBlock,
      list? (CodeBlock.ofJsonIn? (outer + 2)) (list CodeBlock.toJson l) = some l :=
    list?_list fun b => b.ofJsonIn?_toJson h
  simp [ofJsonIn?, toJson, fields?, occurrences, Fields.required, List.lookup_cons, hblocks]

theorem Func.plain_toJson (f : Func) : plain f.toJson = true := by
  have hblocks : plain (list CodeBlock.toJson f.blocks) = true := plain_list CodeBlock.plain_toJson
  simp [toJson, plain, plainMembers, word, temp, hblocks]

/-- A missing initialiser is left out, and read back as missing. -/
theorem GlobalData.ofJson?_toJson (g : GlobalData) : GlobalData.ofJson? g.toJson = some g := by
  obtain ⟨name, sect, address, size, init⟩ := g
  cases init with
  | none =>
    simp [ofJson?, toJson, fields?, occurrences, Fields.required, Fields.optionalAnywhere,
      List.lookup_cons]
  | some bytes =>
    have hbytes : nullable (list? byte?) (list byte bytes.toList) = some (some bytes.toList) :=
      nullable_opt (list?_list byte?_byte) rfl (some bytes.toList)
    simp [ofJson?, toJson, fields?, occurrences, Fields.required, Fields.optionalAnywhere,
      List.lookup_cons, hbytes]

theorem GlobalData.plain_toJson (g : GlobalData) : plain g.toJson = true := by
  obtain ⟨name, sect, address, size, init⟩ := g
  cases init with
  | none => rfl
  | some bytes =>
    have hbytes : plain (list byte bytes.toList) = true := plain_list fun _ => rfl
    simp [toJson, plain, plainMembers, word, hbytes]

namespace Module

theorem ofJson?_toJson (m : Module) : ofJson? m.toJson = some m := by
  have hfunctions : ∀ l : List Func, list? (Func.ofJsonIn? 2) (list Func.toJson l) = some l :=
    list?_list fun f => f.ofJsonIn?_toJson (by decide)
  simp [ofJson?, toJson, fields?, occurrences, Fields.required, List.lookup_cons, hfunctions,
    list?_list GlobalData.ofJson?_toJson]

theorem plain_toJson (m : Module) : plain m.toJson = true := by
  have hglobals : plain (list GlobalData.toJson m.globals) = true :=
    plain_list GlobalData.plain_toJson
  have hfunctions : ∀ l : List Func, plain (list Func.toJson l) = true := fun l =>
    plain_list Func.plain_toJson
  simp [toJson, plain, plainMembers, hglobals, hfunctions]

theorem parse?_pretty (m : Module) : parse? m.pretty = some m := by
  rw [parse?, pretty, Json.parse?_pretty m.plain_toJson]
  exact m.ofJson?_toJson

end Module

theorem Binary.text?_toUTF8 (s : String) : Binary.text? s.toUTF8.data.toList = some s := by
  rw [Binary.text?, Array.toArray_toList]
  exact dif_pos s.isValidUTF8

theorem Path.join_inj {base a b : String} (hab : Path.isAbsolute a = Path.isAbsolute b)
    (h : Path.join base a = Path.join base b) : a = b := by
  unfold Path.join at h
  rw [hab] at h
  split at h
  · exact h
  · split at h
    · exact (String.append_right_inj base).mp h
    · exact (String.append_right_inj (base ++ "/")).mp h

theorem OutputLayout.nodup_artifacts (l : OutputLayout) : l.artifacts.Nodup := by
  have habs : ∀ a ∈ ["module.json", "bblist.txt", "functions.txt", "stats.txt"],
      Path.isAbsolute a = false := by
    decide +kernel
  show (["module.json", "bblist.txt", "functions.txt", "stats.txt"].map (Path.join l.root)).Nodup
  refine List.Nodup.map_on (fun a ha b hb h => Path.join_inj ?_ h) (by decide)
  rw [habs a ha, habs b hb]

/-- The results of a run are written to files of different names, and the bytes that go to the one
of the module read back as the module, whatever module it is. -/
theorem OutputLayout.module_of_writeArtifacts {m : Type → Type} [Monad m] [Host m]
    (l : OutputLayout) (t : Recovery) (elapsed : Binary64) (module_ : Module) :
    ∃ files : String → List (String × String),
      (l.writeArtifacts { t with module_ } elapsed : Action m Unit) = (do
        let timestamp ← (Host.now : m _)
        for (path, text) in files timestamp do
          Action.file ("Failed to write " ++ path) (Host.write path text.toUTF8.data : m _)) ∧
      ∀ timestamp, ((files timestamp).map (·.1)).Nodup ∧
        ∃ text, (l.modulePath, text) ∈ files timestamp ∧
          (Binary.text? text.toUTF8.data.toList).bind Module.parse? = some module_ := by
  refine ⟨_, rfl, fun timestamp => ⟨l.nodup_artifacts, module_.pretty, List.mem_cons_self, ?_⟩⟩
  rw [Binary.text?_toUTF8, Option.bind_some]
  exact module_.parse?_pretty

end FlowRecovery
