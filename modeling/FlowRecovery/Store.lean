/-
The block store: blocks by address, kept disjoint.

Inserting a block repairs overlaps until there are none.  Of two overlapping
blocks, the one that starts first is split where the other starts.  If the new
block starts first, the stored one gives way to the new block's second half; if
the stored one starts first, its halves take its place and the new block is
dropped; if both start together, the new block is dropped.

The repair works on a stack of pending blocks.  It ends because every split makes
blocks with fewer markers in total (`Block.weight_split`).  A repair that fails
keeps what it has done so far.
-/
import FlowRecovery.Block.Split

namespace FlowRecovery

/-- Blocks by their addresses, and how much repair they needed. -/
structure Store where
  blocks : AddrMap Block := ∅
  splits : Nat := 0
  duplicates : Nat := 0
  deriving DecidableEq, Repr, Inhabited

namespace Store

variable {ε : Type}

/-- The block that starts at the address. -/
def get? (s : Store) (a : Addr) : Option Block := s.blocks.get? a

/-- Whether a block starts at the address. -/
def contains (s : Store) (a : Addr) : Bool := s.blocks.contains a

/-- The blocks in address order. -/
def toList (s : Store) : List Block := s.blocks.values

/-- Where the blocks start, in order. -/
def addresses (s : Store) : List Addr := s.blocks.keys

/-- How many blocks there are. -/
def size (s : Store) : Nat := s.blocks.size

/-- The block that covers the address. -/
def findContaining (s : Store) (a : Addr) : Checked ε (Option Block) :=
  match s.blocks.lastUpTo? a with
  | none => .ok none
  | some (_, b) => (b.contains a).map fun inside => if inside then some b else none

/-- The last stored block that overlaps the given one, with its key. -/
def overlapping (s : Store) (b : Block) : Checked ε (Option (Addr × Block)) := do
  let limit ← b.limit
  match s.blocks.lastBelow? limit with
  | none => return none
  | some (k, old) =>
    let oldLimit ← old.limit
    return if b.address < oldLimit then some (k, old) else none

/-- Keep a block that overlaps no other. -/
def put (s : Store) (b : Block) : Store := { s with blocks := s.blocks.insert b.address b }

/-- A block was dropped because another starts at its address. -/
def noteDuplicate (s : Store) : Store := { s with duplicates := s.duplicates + 1 }

/-- A stored block gives way to the halves of a split. -/
def giveWay (s : Store) (k : Addr) : Store :=
  { s with blocks := s.blocks.erase k, splits := s.splits + 1 }

/-- What a list of blocks weighs together. -/
def totalWeight : List Block → Nat
  | [] => 0
  | b :: rest => b.weight + totalWeight rest

/-- What the stored blocks weigh together. -/
def weight (s : Store) : Nat := totalWeight s.blocks.values

theorem weight_insertEntry (k : Addr) (b : Block) (l : List (Addr × Block)) :
    totalWeight ((insertEntry k b l).map (·.2)) ≤ b.weight + totalWeight (l.map (·.2)) := by
  induction l with
  | nil => exact Nat.le_refl _
  | cons e l ih =>
    unfold insertEntry
    split
    · exact Nat.le_refl _
    · split
      · simp only [List.map_cons, totalWeight]
        omega
      · simp only [List.map_cons, totalWeight] at ih ⊢
        omega

theorem weight_put (s : Store) (b : Block) : (s.put b).weight ≤ b.weight + s.weight :=
  weight_insertEntry b.address b s.blocks.entries

theorem weight_filter (k : Addr) (l : List (Addr × Block)) :
    totalWeight ((l.filter (·.1 ≠ k)).map (·.2)) ≤ totalWeight (l.map (·.2)) := by
  induction l with
  | nil => simp
  | cons e l ih =>
    rw [List.filter_cons]
    split <;> simp only [List.map_cons, totalWeight] <;> omega

theorem weight_filter_of_mem {k : Addr} {b : Block} {l : List (Addr × Block)} (h : (k, b) ∈ l) :
    totalWeight ((l.filter (·.1 ≠ k)).map (·.2)) + b.weight ≤ totalWeight (l.map (·.2)) := by
  induction l with
  | nil => cases h
  | cons e l ih =>
    rcases List.mem_cons.mp h with rfl | h
    · rw [List.filter_cons_of_neg (by simp)]
      have := weight_filter k l
      simp only [List.map_cons, totalWeight] at this ⊢
      omega
    · have := ih h
      rw [List.filter_cons]
      split <;> simp only [List.map_cons, totalWeight] <;> omega

theorem weight_giveWay (s : Store) (k : Addr) : (s.giveWay k).weight ≤ s.weight :=
  weight_filter k s.blocks.entries

theorem weight_giveWay_of_mem {s : Store} {k : Addr} {b : Block} (h : (k, b) ∈ s.blocks.entries) :
    (s.giveWay k).weight + b.weight ≤ s.weight :=
  weight_filter_of_mem h

theorem mem_of_overlapping {s : Store} {b old : Block} {k : Addr}
    (h : (s.overlapping b : Checked ε _) = .ok (some (k, old))) :
    (k, old) ∈ s.blocks.entries := by
  obtain ⟨limit, -, h⟩ := Checked.bind_eq_ok.mp h
  cases hl : s.blocks.lastBelow? limit with
  | none =>
    rw [hl] at h
    cases h
  | some e =>
    rw [hl] at h
    obtain ⟨oldLimit, -, h⟩ := Checked.bind_eq_ok.mp h
    have : e ∈ s.blocks.entries :=
      (List.mem_filter.mp (List.mem_of_getLast? hl)).1
    simp only [pure, Except.pure, Except.ok.injEq] at h
    split at h
    · cases h
      exact this
    · cases h

/-- Insert pending blocks, the first one first, splitting on overlap. -/
def repair (s : Store) (pending : List Block) : Store × Checked BlockError Unit :=
  match pending with
  | [] => (s, .ok ())
  | b :: rest =>
    match _ho : s.overlapping b with
    | .error e => (s, .error e)
    | .ok none => repair (s.put b) rest
    | .ok (some (k, old)) =>
      if b.address = k then repair s.noteDuplicate rest
      else if b.address < k then
        match _hs : b.split k with
        | .error e => (s, .error e)
        | .ok (first, second) => repair (s.giveWay k) (first :: second :: rest)
      else
        match _hs : old.split b.address with
        | .error e => (s, .error e)
        | .ok (first, second) => repair (s.giveWay k) (first :: second :: rest)
  -- A split takes more weight off than it adds blocks to the list.
  termination_by 2 * (s.weight + totalWeight pending) + pending.length
  decreasing_by
    · have := weight_put s b
      simp only [totalWeight, List.length_cons]
      omega
    · have : s.noteDuplicate.weight = s.weight := rfl
      simp only [totalWeight, List.length_cons]
      omega
    · have h1 := weight_giveWay s k
      have h2 := Block.weight_split _hs
      simp only [totalWeight, List.length_cons]
      omega
    · have h1 := weight_giveWay_of_mem (mem_of_overlapping _ho)
      have h2 := Block.weight_split _hs
      simp only [totalWeight, List.length_cons]
      omega

/-- Insert a block, splitting on overlap until all blocks are disjoint. -/
def insert (s : Store) (b : Block) : Store × Checked BlockError Unit := s.repair [b]

/-- Insert blocks one after the other, up to the first that fails. -/
def insertAll (s : Store) : List Block → Checked BlockError Store
  | [] => .ok s
  | b :: rest =>
    match s.insert b with
    | (s', .ok ()) => insertAll s' rest
    | (_, .error e) => .error e

end Store

end FlowRecovery
