/-
The contract of lifted units, and the check that decides it.

A body covers the addresses from `address` up to `address + size`.  It starts with
the marker of its own address; markers increase and stay inside; the last
instruction is the only exit, and a raw branch can only stand right before it;
instructions of assembled functions do not occur; and every temporary is defined
once, below the first free one, before it is read.
-/
import FlowRecovery.Fault

namespace FlowRecovery.Body

/-- Whether the instruction belongs into assembled functions only. -/
def functionLevel : Inst → Bool
  | .jump _ => true
  | .condJump _ _ _ => true
  | .ret => true
  | .call _ _ => true
  | .importCall _ _ _ => true
  | .jumpMarker _ => true
  | _ => false

/-- Whether a marker stands behind, or at the place of, the last one. -/
def outOfOrder (last : Option Addr) (pc : Addr) : Bool :=
  match last with
  | some prev => pc ≤ prev
  | none => false

/-- Check the places of markers, exits and branches; `last` is the marker before. -/
def checkShape (address limit : Addr) (last : Option Addr) : List Inst → Except BodyFault Unit
  | [] => .ok ()
  | i :: rest =>
    match i.marker? with
    | some pc =>
      if pc < address ∨ limit ≤ pc then .error (.markerOutside pc)
      else if outOfOrder last pc then .error (.markerOutOfOrder pc)
      else checkShape address limit (some pc) rest
    | none =>
      match i with
      | .exit => if rest ≠ [] then .error .earlyExit else checkShape address limit last rest
      | .branch _ =>
        if rest.length ≠ 1 then .error .earlyBranch else checkShape address limit last rest
      | _ =>
        if functionLevel i then .error (.functionLevel i) else checkShape address limit last rest

/-- Where the check of places goes past an instruction, only a marker changes what it
asks of the rest. -/
theorem checkShape_cons {address limit : Addr} {last : Option Addr} {i : Inst}
    {rest : List Inst} (h : checkShape address limit last (i :: rest) = .ok ()) :
    (∃ pc, i.marker? = some pc ∧ outOfOrder last pc = false ∧
      checkShape address limit (some pc) rest = .ok ()) ∨
    (i.marker? = none ∧ checkShape address limit last rest = .ok ()) := by
  unfold checkShape at h
  split at h
  · next pc hpc =>
    split at h
    · cases h
    · split at h
      · cases h
      · next horder => exact Or.inl ⟨pc, hpc, Bool.eq_false_iff.mpr horder, h⟩
  · next hnone =>
    refine Or.inr ⟨hnone, ?_⟩
    split at h <;> split at h
    all_goals first | exact h | cases h

/-- Check that temporaries are defined once, in range and before they are read. -/
def checkOrder (next : Temp) (seen : List Temp) : List Inst → Except TempFault Unit
  | [] => .ok ()
  | i :: rest =>
    match i.uses.find? (!seen.contains ·) with
    | some t => .error (.usedBeforeDefinition t)
    | none =>
      match i.def? with
      | none => checkOrder next seen rest
      | some t =>
        if next ≤ t then .error (.outOfRange t next)
        else if t ∈ seen then .error (.definedTwice t)
        else checkOrder next (t :: seen) rest

/-- Check the instruction that the body starts with. -/
def checkStart (address : Addr) : List Inst → Except BodyFault Unit
  | [] => .error .empty
  | .marker pc :: _ => if pc = address then .ok () else .error .noOwnMarker
  | _ => .error .noOwnMarker

/-- Check a body against the contract of a unit that covers `size` bytes from `address`. -/
def check (b : Body) (address : Addr) (size : Word) : Except BodyFault Unit := do
  if size = 0 then throw .zeroSized
  checkStart address b.insts
  checkShape address (saturatingAdd address size) none b.insts
  if b.insts.getLast? ≠ some .exit then throw .noExit
  (checkOrder b.nextTemp [] b.insts).mapError .temporaries

/-- A body passes if it passes each of the checks. -/
theorem check_eq_ok {b : Body} {address : Addr} {size : Word} :
    b.check address size = .ok () ↔
      size ≠ 0 ∧ checkStart address b.insts = .ok () ∧
      checkShape address (saturatingAdd address size) none b.insts = .ok () ∧
      b.insts.getLast? = some .exit ∧ checkOrder b.nextTemp [] b.insts = .ok () := by
  unfold check
  by_cases hs : size = 0
  · rw [if_pos hs]
    exact ⟨nofun, fun h => absurd hs h.1⟩
  · rw [if_neg hs]
    cases h1 : checkStart address b.insts with
    | error e => exact ⟨nofun, fun h => nomatch h.2.1⟩
    | ok u1 =>
      cases h2 : checkShape address (saturatingAdd address size) none b.insts with
      | error e => exact ⟨nofun, fun h => nomatch h.2.2.1⟩
      | ok u2 =>
        by_cases h3 : b.insts.getLast? = some .exit
        · show (if b.insts.getLast? ≠ some .exit then _ else
              (checkOrder b.nextTemp [] b.insts).mapError BodyFault.temporaries) = _ ↔ _
          rw [if_neg (not_not_intro h3), Checked.mapError_eq_ok]
          exact ⟨fun h => ⟨hs, rfl, rfl, h3, h⟩, fun h => h.2.2.2.2⟩
        · show (if b.insts.getLast? ≠ some .exit then _ else _) = _ ↔ _
          rw [if_pos h3]
          exact ⟨nofun, fun h => absurd h.2.2.2.1 h3⟩

/-- Check a body, naming the address it is for. -/
def verify (b : Body) (address : Addr) (size : Word) : Except VerifyError Unit :=
  (b.check address size).mapError (.block address)

theorem verify_eq_ok {b : Body} {address : Addr} {size : Word} :
    b.verify address size = .ok () ↔ b.check address size = .ok () :=
  Checked.mapError_eq_ok

end FlowRecovery.Body
