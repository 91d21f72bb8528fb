/-
Exploration: which blocks can be reached from the entries.

The exploration keeps a worklist of addresses and takes the least one first.  An
address is lifted once; its block goes into the store, and where control may go
from there, whom it calls, and the numbers in its code that may be code addresses
are put on the worklist.  A decode fault only costs the address.

The loop ends because every round moves an address into the set of explored
addresses, of which there are only `2 ^ 64`, or takes one off the worklist.

* `Explorer.runWith` — the loop, from a state, with a lifter that may have a memory;
* `Explorer.run` — the same with the lifter of the explorer, which has none;
* `explore` — the whole exploration from a list of entries.
-/
import FlowRecovery.Block.Classify
import FlowRecovery.Block.JumpTable
import FlowRecovery.Image.Strings
import FlowRecovery.Store

namespace FlowRecovery

/-- Which numbers in the code are taken for code addresses. -/
structure ExploreOptions where
  /-- Whether any are. -/
  extractAddresses : Bool := true
  /-- The least length of a string; where one starts there is no code. -/
  minStringLength : Nat := 2
  /-- Whether the bases of jump tables are left out. -/
  detectJumpTables : Bool := true
  deriving DecidableEq, Repr, Inhabited

/-- Why an exploration failed. -/
inductive ExploreError where
  | noEntryPoints
  | lifter (fault : LiftFault)
  | block (error : BlockError)
  deriving DecidableEq, Repr

/-- The text of the error. -/
def ExploreError.message : ExploreError → String
  | .noEntryPoints => "no entry points to explore from"
  | .lifter fault => "lifter failure: " ++ fault.message
  | .block error => error.message

/-- How far an exploration has come. -/
structure Exploration where
  worklist : AddrSet := ∅
  /-- The addresses that have been handed to the lifter. -/
  explored : AddrSet := ∅
  /-- The same addresses in the order of their turns, the last one first. -/
  turns : List Addr := []
  /-- The addresses that could not be decoded. -/
  dropped : AddrSet := ∅
  jumpTables : AddrSet := ∅
  store : Store := {}
  /-- How many addresses were lifted. -/
  lifted : Nat := 0
  /-- How many times a decode fault was met. -/
  faults : Nat := 0
  /-- How many numbers were taken for code addresses. -/
  candidates : Nat := 0
  /-- How many were not. -/
  rejected : Nat := 0
  deriving DecidableEq, Repr, Inhabited

namespace Exploration

/-- Put an address on the worklist, unless it has had its turn. -/
def enqueue (e : Exploration) (a : Addr) : Exploration :=
  if a ∈ e.explored then e else { e with worklist := e.worklist.insert a }

/-- Whether the address has had its turn. -/
def isExplored (e : Exploration) (a : Addr) : Bool := e.explored.contains a

/-- It is the turn of an address. -/
def visit (e : Exploration) (a : Addr) : Exploration :=
  { e with explored := e.explored.insert a, turns := a :: e.turns }

/-- An address could not be decoded. -/
def drop (e : Exploration) (a : Addr) : Exploration :=
  { e with dropped := e.dropped.insert a, faults := e.faults + 1 }

end Exploration

/-- What an exploration works with. -/
structure Explorer where
  lifter : LiftFn
  image : Image
  options : ExploreOptions

namespace Explorer

/-- Whether a number in the code may be a code address that is still to explore. -/
def isCandidate (x : Explorer) (e : Exploration) (value : Word) : Checked ExploreError Bool := do
  if value ∈ e.explored ∨ value ∈ e.worklist then return false
  if !x.image.isCode value then return false
  match ← e.store.findContaining value with
  | some b => if b.address ≠ value then return false
  | none => pure ()
  if value ∈ e.jumpTables then return false
  return !x.image.looksLikeString value x.options.minStringLength

/-- Take a number in the code for a code address, or leave it. -/
def consider (x : Explorer) (e : Exploration) (value : Word) :
    Checked ExploreError Exploration := do
  if ← x.isCandidate e value then
    return { e with candidates := e.candidates + 1 }.enqueue value
  else return { e with rejected := e.rejected + 1 }

/-- Note that a block was lifted, and the jump table that it goes through. -/
def note (x : Explorer) (e : Exploration) (b : Block) : Exploration :=
  let base := if x.options.detectJumpTables then b.jumpTableBase? else none
  { e with
    lifted := e.lifted + 1
    jumpTables := match base with
      | some a => e.jumpTables.insert a
      | none => e.jumpTables }

/-- The numbers in a block that are looked at. -/
def numbers (x : Explorer) (b : Block) : List Word :=
  if x.options.extractAddresses then b.body.constants else []

/-- Keep a lifted block and put what it leads to on the worklist. -/
def keep (x : Explorer) (e : Exploration) (b : Block) : Checked ExploreError Exploration := do
  let e := x.note e b
  let (store, inserted) := e.store.insert b
  inserted.within .block
  let next := b.successors.toList ++ b.callTargets.toList
  (x.numbers b).foldlM x.consider (next.foldl Exploration.enqueue { e with store })

/-- The turn of an address, given what the lifter answers. -/
def settle (x : Explorer) (e : Exploration) (a : Addr) (answer : Except LiftFault Lifted) :
    Checked ExploreError Exploration :=
  match Block.ofAnswer answer with
  | .ok b => x.keep e b
  | .error (.refused (.lift fault)) =>
    if fault.recoverable then .ok (e.drop a) else Checked.refuse (.lifter fault)
  | .error (.refused error) => Checked.refuse (.block error)
  | .error .overflow => .error .overflow

/-- The turn of an address. -/
def step (x : Explorer) (e : Exploration) (a : Addr) : Checked ExploreError Exploration :=
  x.settle e a (x.lifter a)

theorem explored_enqueue (e : Exploration) (a : Addr) : (e.enqueue a).explored = e.explored := by
  unfold Exploration.enqueue
  split <;> rfl

theorem explored_foldl_enqueue (l : List Addr) (e : Exploration) :
    (l.foldl Exploration.enqueue e).explored = e.explored := by
  induction l generalizing e with
  | nil => rfl
  | cons a l ih => rw [List.foldl_cons, ih, explored_enqueue]

theorem explored_consider {x : Explorer} {e e' : Exploration} {value : Word}
    (h : x.consider e value = .ok e') : e'.explored = e.explored := by
  obtain ⟨b, -, h⟩ := Checked.bind_eq_ok.mp h
  cases b with
  | false =>
    cases h
    rfl
  | true =>
    cases h
    exact explored_enqueue _ _

theorem explored_foldlM_consider {x : Explorer} {l : List Word} {e e' : Exploration}
    (h : l.foldlM x.consider e = .ok e') : e'.explored = e.explored := by
  induction l generalizing e with
  | nil =>
    cases h
    rfl
  | cons value l ih =>
    obtain ⟨e₁, h₁, h⟩ := Checked.bind_eq_ok.mp h
    rw [ih h, explored_consider h₁]

theorem explored_keep {x : Explorer} {e e' : Exploration} {b : Block}
    (h : x.keep e b = .ok e') : e'.explored = e.explored := by
  obtain ⟨-, -, h⟩ := Checked.bind_eq_ok.mp h
  rw [explored_foldlM_consider h, explored_foldl_enqueue]
  rfl

/-- A turn explores no further address. -/
theorem explored_settle {x : Explorer} {e e' : Exploration} {a : Addr}
    {answer : Except LiftFault Lifted} (h : x.settle e a answer = .ok e') :
    e'.explored = e.explored := by
  unfold settle at h
  split at h
  · exact explored_keep h
  · split at h
    · cases h
      rfl
    · cases h
  · cases h
  · cases h

/-- Go on until the worklist is empty or a turn fails.  The lifter may have a memory, on
which its answers depend. -/
def runWith {σ : Type} (lift : σ → Addr → Except LiftFault Lifted × σ) (x : Explorer) (m : σ)
    (e : Exploration) : σ × Exploration × Checked ExploreError Unit :=
  match _hp : e.worklist.popMin? with
  | none => (m, e, .ok ())
  | some (a, rest) =>
    if _ha : a ∈ e.explored then runWith lift x m { e with worklist := rest }
    else
      match _hs : x.settle ({ e with worklist := rest }.visit a) a (lift m a).1 with
      | .error error => ((lift m a).2, { e with worklist := rest }.visit a, .error error)
      | .ok next => runWith lift x (lift m a).2 next
  -- An explored address weighs more than any worklist.
  termination_by
    0x10000000000000001 * (0x10000000000000000 - e.explored.size) + e.worklist.size
  decreasing_by
    · have := AddrSet.size_popMin? _hp
      omega
    · have h1 : next.explored.size = e.explored.size + 1 := by
        rw [explored_settle _hs]
        exact AddrSet.size_insert_of_not_mem _ha
      have h2 := next.explored.size_le
      have h3 := next.worklist.size_le
      omega

/-- Go on with the explorer's own lifter. -/
def run (x : Explorer) (e : Exploration) : Exploration × Checked ExploreError Unit :=
  (x.runWith (fun _ a => (x.lifter a, ())) () e).2

end Explorer

/-- A lifter, and whether another owner holds it. -/
structure Lifter where
  lift : LiftFn
  busy : Bool := false

/-- The course of an exploration. -/
structure Course where
  /-- Whether the lifter was taken; it has been given back since. -/
  opened : Bool := false
  /-- The addresses that were handed to the lifter, in order. -/
  turns : List Addr := []
  result : Checked ExploreError Exploration

namespace Explorer

/-- Explore from a state. -/
def course (x : Explorer) (e : Exploration) : Course :=
  let (last, result) := x.run e
  { opened := true, turns := last.turns.reverse, result := result.map fun _ => last }

end Explorer

/-- Explore from the entries. -/
def explore (lifter : Lifter) (image : Image) (options : ExploreOptions) (entries : List Addr) :
    Course :=
  if entries.isEmpty then { result := Checked.refuse .noEntryPoints }
  else if lifter.busy then { result := Checked.refuse (.lifter .busy) }
  else
    Explorer.course { lifter := lifter.lift, image, options }
      (entries.foldl Exploration.enqueue {})

end FlowRecovery
