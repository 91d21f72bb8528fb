/-
Base relocations.

The directory of base relocations is a table of blocks.  A block is the relative address of a
page, its own size, and an entry of two bytes for each place in the page: four bits for the type,
and twelve for the offset of the place.

* `Located`, `offsetOf?_of_located` — where the file has a relative address;
* `blockEntry_of_fits` — what an entry says (`Decodes`);
* `blocks_of_table` — a table of blocks is read entry by entry;
* `exists_scan` — whatever the bytes are, the scan ends: each turn goes on at least by the size
  of the head of a block;
* `File.relocations_decode` — the base relocations of a file.
-/
import FlowRecovery.Image.Pe.Load
import FlowRecovery.Proofs.Image.Bytes
import FlowRecovery.Proofs.Lists

namespace FlowRecovery

variable {ε : Type}

/-- A map over a list whose steps all succeed yields what they yield. -/
theorem Checked.exists_mapM {α β : Type} {g : α → Checked ε β} {P : α → β → Prop} {l : List α}
    (h : ∀ a ∈ l, ∃ b, g a = .ok b ∧ P a b) :
    ∃ bs, l.mapM g = .ok bs ∧ List.Forall₂ P l bs := by
  induction l with
  | nil => exact ⟨[], rfl, .nil⟩
  | cons a l ih =>
    obtain ⟨b, hb, hP⟩ := h a List.mem_cons_self
    obtain ⟨bs, hbs, hPs⟩ := ih fun c hc => h c (List.mem_cons_of_mem a hc)
    refine ⟨b :: bs, ?_, .cons hP hPs⟩
    rw [List.mapM_cons, hb, hbs]
    rfl

namespace Pe

/-! ### Where the directory is -/

/-- How much of the memory the section may cover. -/
def SectionHeader.span (h : SectionHeader) : Nat := max h.virtualSize.toNat h.rawSize.toNat

/-- Whether the section covers the relative address. -/
def SectionHeader.Covers (h : SectionHeader) (address : UInt32) : Prop :=
  h.virtualAddress.toNat ≤ address.toNat ∧ address.toNat < h.virtualAddress.toNat + h.span

instance (h : SectionHeader) (address : UInt32) : Decidable (h.Covers address) :=
  inferInstanceAs (Decidable (_ ∧ _))

/-- The first section that covers the relative address has it at the offset in the file, and no
sum on the way there leaves 32 bits. -/
inductive Located (address : UInt32) : List SectionHeader → Nat → Prop where
  | here {h : SectionHeader} {rest : List SectionHeader} (hcovers : h.Covers address)
      (hspan : h.virtualAddress.toNat + h.span < 0x100000000)
      (hoffset : h.rawOffset.toNat + (address.toNat - h.virtualAddress.toNat) < 0x100000000) :
      Located address (h :: rest)
        (h.rawOffset.toNat + (address.toNat - h.virtualAddress.toNat))
  | later {h : SectionHeader} {rest : List SectionHeader} {start : Nat}
      (hcovers : ¬ h.Covers address)
      (hspan : h.virtualAddress.toNat ≤ address.toNat →
        h.virtualAddress.toNat + h.span < 0x100000000)
      (hrest : Located address rest start) : Located address (h :: rest) start

theorem checkedAdd32_of_lt {a b : UInt32} (h : a.toNat + b.toNat < 0x100000000) :
    (checkedAdd32 a b : Checked ε UInt32) = .ok (a + b) := by
  rw [checkedAdd32, if_pos h]

/-- The offset of a relative address is found where it is. -/
theorem offsetOf?_of_located {address : UInt32} {sections : List SectionHeader} {start : Nat}
    (h : Located address sections start) :
    (offsetOf? address sections : Checked ε (Option Nat)) = .ok (some start) := by
  induction h with
  | @here h rest hcovers hspan hoffset =>
    obtain ⟨hle, hlt⟩ := hcovers
    have hle32 : h.virtualAddress ≤ address := UInt32.le_iff_toNat_le.mpr hle
    have hsum : h.virtualAddress.toNat + (max h.virtualSize h.rawSize).toNat < 0x100000000 := by
      rw [UInt32.toNat_max]
      exact hspan
    have hlimit : address < h.virtualAddress + max h.virtualSize h.rawSize := by
      rw [UInt32.lt_iff_toNat_lt, UInt32.toNat_add, Nat.mod_eq_of_lt hsum, UInt32.toNat_max]
      exact hlt
    have hsub : (address - h.virtualAddress).toNat = address.toNat - h.virtualAddress.toNat :=
      UInt32.toNat_sub_of_le _ _ hle32
    have hsum' : h.rawOffset.toNat + (address - h.virtualAddress).toNat < 0x100000000 := by
      rw [hsub]
      exact hoffset
    rw [offsetOf?, if_pos hle32, checkedAdd32_of_lt hsum, checkedAdd32_of_lt hsum']
    show (if address < h.virtualAddress + max h.virtualSize h.rawSize then
      Except.ok (some (h.rawOffset + (address - h.virtualAddress)).toNat) else _) = _
    rw [if_pos hlimit, UInt32.toNat_add, Nat.mod_eq_of_lt hsum', hsub]
  | @later h rest start hcovers hspan _ ih =>
    rw [offsetOf?]
    by_cases hle : h.virtualAddress ≤ address
    · have hle' := UInt32.le_iff_toNat_le.mp hle
      have hsum : h.virtualAddress.toNat + (max h.virtualSize h.rawSize).toNat < 0x100000000 := by
        rw [UInt32.toNat_max]
        exact hspan hle'
      have hlimit : ¬ address < h.virtualAddress + max h.virtualSize h.rawSize := by
        rw [UInt32.lt_iff_toNat_lt, UInt32.toNat_add, Nat.mod_eq_of_lt hsum, UInt32.toNat_max]
        exact fun hlt => hcovers ⟨hle', hlt⟩
      rw [if_pos hle, checkedAdd32_of_lt hsum]
      show (if address < h.virtualAddress + max h.virtualSize h.rawSize then _ else _) = _
      rw [if_neg hlimit]
      exact ih
    · rw [if_neg hle]
      exact ih

/-! ### Entries -/

theorem toNat_ofNat_of_lt {n : Nat} (h : n < 0x10000000000000000) : (UInt64.ofNat n).toNat = n :=
  UInt64.toNat_ofNat_of_lt' h

/-- What an entry for a page says: there is a value of four or eight bytes at the offset into the
page, and the file has it. -/
structure Decodes (sections : List Section) (base : Addr) (page : UInt32) (entry : UInt16)
    (r : Relocation) : Prop where
  width : (entry.toNat / 0x1000 = 3 ∧ r.size = 4) ∨ (entry.toNat / 0x1000 = 10 ∧ r.size = 8)
  site : r.site.toNat = base.toNat + page.toNat + entry.toNat % 0x1000
  stored : Stores sections r.site r.size.toNat r.target
  addend : r.addend = 0

/-- If the entry is for a value, the place of the value is an address. -/
def SiteFits (base : Addr) (page : UInt32) (entry : UInt16) : Prop :=
  entry.toNat / 0x1000 = 3 ∨ entry.toNat / 0x1000 = 10 →
    base.toNat + page.toNat + entry.toNat % 0x1000 < 0x10000000000000000

instance (base : Addr) (page : UInt32) (entry : UInt16) : Decidable (SiteFits base page entry) :=
  inferInstanceAs (Decidable (_ → _))

variable {sections : List Section} {base : Addr} {page : UInt32} {entry : UInt16}

theorem relocWidth?_eq_some {n width : Nat} :
    relocWidth? n = some width ↔ (n / 0x1000 = 3 ∧ width = 4) ∨ (n / 0x1000 = 10 ∧ width = 8) := by
  unfold relocWidth?
  split <;> grind

theorem Decodes.relocWidth?_eq {r : Relocation} (h : Decodes sections base page entry r) :
    relocWidth? entry.toNat = some r.size.toNat :=
  relocWidth?_eq_some.mpr
    (h.width.imp (And.imp_right (congrArg UInt8.toNat)) (And.imp_right (congrArg UInt8.toNat)))

/-- An entry for a value yields the value at its place, if the file has it. -/
theorem blockEntry_eq_map {site : Addr} {width : Nat}
    (hwidth : relocWidth? entry.toNat = some width)
    (hsite : site.toNat = base.toNat + page.toNat + entry.toNat % 0x1000) :
    (blockEntry sections base page.toNat entry.toNat : Checked ε _) =
      .ok ((storedValue? sections site width).map fun target =>
        { site, target, size := .ofNat width, addend := 0 }) := by
  have hlt := site.toNat_lt
  have hstart : (checkedAdd base (.ofNat page.toNat) : Checked ε Addr) =
      .ok (.ofNat (base.toNat + page.toNat)) := by
    rw [checkedAdd_eq_ok, toNat_ofNat_of_lt (by omega), toNat_ofNat_of_lt (by omega)]
  have hplace : (checkedAdd (.ofNat (base.toNat + page.toNat)) (.ofNat (entry.toNat % 0x1000)) :
      Checked ε Addr) = .ok site := by
    rw [checkedAdd_eq_ok, toNat_ofNat_of_lt (by omega), toNat_ofNat_of_lt (by omega), hsite]
  rw [blockEntry, hwidth]
  show ((checkedAdd base (.ofNat page.toNat)).bind fun start =>
    (checkedAdd start (.ofNat (entry.toNat % 0x1000))).bind _) = _
  rw [hstart]
  show ((checkedAdd _ (.ofNat (entry.toNat % 0x1000))).bind _) = _
  rw [hplace]
  rfl

/-- An entry whose place is an address yields the relocation that it says, or none. -/
theorem blockEntry_of_fits (h : SiteFits base page entry) :
    ∃ found, (blockEntry sections base page.toNat entry.toNat : Checked ε _) = .ok found ∧
      ∀ r, found = some r ↔ Decodes sections base page entry r := by
  cases hw : relocWidth? entry.toNat with
  | none =>
    refine ⟨none, by rw [blockEntry, hw], fun r => ⟨nofun, fun hr => ?_⟩⟩
    rw [hr.relocWidth?_eq] at hw
    cases hw
  | some width =>
    have hwidth := relocWidth?_eq_some.mp hw
    have hsum := h (by omega)
    obtain ⟨site, hsite⟩ : ∃ site : Addr,
        site.toNat = base.toNat + page.toNat + entry.toNat % 0x1000 :=
      ⟨.ofNat _, toNat_ofNat_of_lt hsum⟩
    have hsize : (UInt8.ofNat width).toNat = width := by
      obtain ⟨-, rfl⟩ | ⟨-, rfl⟩ := hwidth <;> rfl
    refine ⟨_, blockEntry_eq_map hw hsite, fun r => ?_⟩
    rw [Option.map_eq_some_iff]
    constructor
    · rintro ⟨target, htarget, rfl⟩
      refine ⟨?_, hsite, ?_, rfl⟩
      · exact hwidth.imp (And.imp_right (congrArg UInt8.ofNat))
          (And.imp_right (congrArg UInt8.ofNat))
      · show Stores sections site (UInt8.ofNat width).toNat target
        rw [hsize]
        exact (storedValue?_eq_some (by omega)).mp htarget
    · intro hr
      -- The type fixes the size, and the page and the offset the site.
      have hrsize : r.size.toNat = width := Option.some.inj (hr.relocWidth?_eq.symm.trans hw)
      have hrsite : r.site = site := UInt64.toNat_inj.mp (hr.site.trans hsite.symm)
      have hstored := hr.stored
      rw [hrsite, hrsize] at hstored
      refine ⟨r.target, (storedValue?_eq_some (by omega)).mpr hstored, ?_⟩
      rw [← hrsite, ← hrsize, UInt8.ofNat_toNat, ← hr.addend]

/-! ### Blocks -/

/-- A block of the table. -/
structure RelocBlock where
  page : UInt32
  entries : List UInt16
  sized : 8 + 2 * entries.length < 0x100000000

/-- The size of the block, its head with it. -/
def RelocBlock.size (k : RelocBlock) : Nat := 8 + 2 * k.entries.length

/-- The bytes of the entries of a block. -/
def entryBytes (es : List UInt16) : List UInt8 :=
  es.flatMap fun e => Binary.littleEndian e.toUInt64 2

/-- The bytes of the block. -/
def RelocBlock.bytes (k : RelocBlock) : List UInt8 :=
  Binary.littleEndian k.page.toUInt64 4 ++
    (Binary.littleEndian (.ofNat k.size) 4 ++ entryBytes k.entries)

/-- The entries of the blocks, each with the page of its block. -/
def tableOf (ks : List RelocBlock) : List (UInt32 × UInt16) :=
  ks.flatMap fun k => k.entries.map (k.page, ·)

@[simp] theorem length_entryBytes (es : List UInt16) : (entryBytes es).length = 2 * es.length := by
  induction es with
  | nil => rfl
  | cons e es ih =>
    rw [entryBytes, List.flatMap_cons, List.length_append, Binary.length_littleEndian,
      ← entryBytes, ih, List.length_cons]
    omega

@[simp] theorem RelocBlock.length_bytes (k : RelocBlock) : k.bytes.length = k.size := by
  simp only [RelocBlock.bytes, RelocBlock.size, List.length_append, Binary.length_littleEndian,
    length_entryBytes]
  omega

variable {b : Bytes}

/-- The entries of a block are read back. -/
theorem read_entries {es : List UInt16} {pos : Nat} {rest : List UInt8}
    (h : b.toList.drop pos = entryBytes es ++ rest) :
    (List.range es.length).filterMap (fun n => Binary.nat? .little b (pos + 2 * n) 2) =
      es.map UInt16.toNat := by
  induction es generalizing pos with
  | nil => rfl
  | cons e es ih =>
    rw [entryBytes, List.flatMap_cons, List.append_assoc, ← entryBytes] at h
    have hfirst : Binary.nat? .little b (pos + 2 * 0) 2 = some _ :=
      Binary.nat?_of_drop (by decide) h
    have hrest := Binary.drop_of_drop_append h
    rw [Binary.length_littleEndian] at hrest
    have hsmall : e.toUInt64.toNat % 256 ^ 2 = e.toNat := by
      rw [UInt16.toNat_toUInt64]
      exact Nat.mod_eq_of_lt e.toNat_lt
    rw [hsmall] at hfirst
    -- The later entries are read from two bytes further on.
    have hnext : (fun n => Binary.nat? .little b (pos + 2 * n) 2) ∘ Nat.succ =
        fun n => Binary.nat? .little b (pos + 2 + 2 * n) 2 := by
      funext n
      rw [Function.comp_apply, Nat.mul_succ, Nat.add_assoc pos 2, Nat.add_comm 2]
    rw [List.length_cons, List.range_succ_eq_map, List.filterMap_cons,
      hfirst, List.filterMap_map, hnext, ih hrest, List.map_cons]

/-- A block yields what its entries say. -/
theorem block_of_drop {es : List UInt16} {pos : Nat} {rest : List UInt8}
    (h : b.toList.drop pos = entryBytes es ++ rest) (hfits : ∀ e ∈ es, SiteFits base page e) :
    ∃ found : List (Option Relocation),
      List.Forall₂ (fun e o => ∀ r, o = some r ↔ Decodes sections base page e r) es found ∧
      (block b sections base page.toNat pos es.length : Checked ε _) =
        .ok (found.filterMap id) := by
  have hlength := congrArg List.length h
  rw [List.length_drop, List.length_append, length_entryBytes, Array.length_toList] at hlength
  have hmin : min es.length ((b.size - pos) / 2) = es.length := by omega
  obtain ⟨found, hfound, hall⟩ := Checked.exists_mapM fun e he => blockEntry_of_fits (hfits e he)
  refine ⟨found, hall, ?_⟩
  rw [block, hmin]
  simp only [read_entries h]
  rw [List.mapM_map]
  show (List.mapM (fun e : UInt16 => blockEntry sections base page.toNat e.toNat) es).bind _ = _
  rw [hfound]
  rfl

/-- The head of a block is read back, and behind it are the entries. -/
theorem read_head {k : RelocBlock} {pos : Nat} {rest : List UInt8}
    (h : b.toList.drop pos = k.bytes ++ rest) :
    Binary.nat? .little b pos 4 = some k.page.toNat ∧
      Binary.nat? .little b (pos + 4) 4 = some k.size ∧
      b.toList.drop (pos + 8) = entryBytes k.entries ++ rest := by
  rw [RelocBlock.bytes, List.append_assoc, List.append_assoc] at h
  have h4 := Binary.drop_of_drop_append h
  have h8 := Binary.drop_of_drop_append h4
  rw [Binary.length_littleEndian] at h4 h8
  rw [Binary.length_littleEndian] at h8
  have hsized : k.size < 0x100000000 := k.sized
  refine ⟨?_, ?_, h8⟩
  · rw [Binary.nat?_of_drop (by decide) h, UInt32.toNat_toUInt64]
    exact congrArg some (Nat.mod_eq_of_lt k.page.toNat_lt)
  · rw [Binary.nat?_of_drop (by decide) h4, toNat_ofNat_of_lt (by omega)]
    exact congrArg some (Nat.mod_eq_of_lt hsized)

/-! ### The scan -/

/-- The head of a block that the scan has come to. -/
structure BlockHead where
  pos : Nat
  page : Nat
  size : Nat

/-- The scan has room for a head, the bytes have one, and it gives a size that it can have. -/
structure BlockHead.In (h : BlockHead) (b : Bytes) (limit : Nat) : Prop where
  room : h.pos + 8 ≤ limit
  page : Binary.nat? .little b h.pos 4 = some h.page
  size : Binary.nat? .little b (h.pos + 4) 4 = some h.size
  long : 8 ≤ h.size

/-- The relocations of the block. -/
def BlockHead.relocations (h : BlockHead) (b : Bytes) (sections : List Section) (base : Addr) :
    Checked ε (List Relocation) :=
  block b sections base h.page (h.pos + 8) ((h.size - 8) / 2)

/-- The heads that the scan comes to, from a position up to where no head is. -/
inductive Scan (b : Bytes) (limit : Nat) : Nat → List BlockHead → Prop where
  | stop {pos : Nat} (h : ∀ head : BlockHead, head.In b limit → head.pos ≠ pos) :
      Scan b limit pos []
  | turn {head : BlockHead} {rest : List BlockHead} (h : head.In b limit)
      (hrest : Scan b limit (head.pos + head.size) rest) : Scan b limit head.pos (head :: rest)

variable {limit : Nat}

/-- One turn of the scan. -/
theorem BlockHead.In.blocks_eq {h : BlockHead} (hin : h.In b limit) :
    (blocks b sections base limit h.pos : Checked ε _) = do
      let first ← h.relocations b sections base
      let rest ← blocks b sections base limit (h.pos + h.size)
      return first ++ rest := by
  rw [blocks, if_pos hin.room, hin.page, hin.size]
  exact if_neg (Nat.not_lt.mpr hin.long)

/-- Without a head the scan ends. -/
theorem blocks_of_no_head {pos : Nat} (h : ∀ head : BlockHead, head.In b limit → head.pos ≠ pos) :
    (blocks b sections base limit pos : Checked ε _) = .ok [] := by
  rw [blocks]
  split
  · next hroom =>
    split
    · next page size hpage hsize =>
      refine if_pos (Nat.lt_of_not_le fun hlong => ?_)
      exact h ⟨pos, page, size⟩ ⟨hroom, hpage, hsize, hlong⟩ rfl
    · rfl
  · rfl

/-- Whatever the bytes are, the scan comes to an end: each turn goes on by eight bytes or more. -/
theorem exists_scan (b : Bytes) (limit pos : Nat) :
    ∃ heads, Scan b limit pos heads ∧ 8 * heads.length ≤ limit - pos := by
  induction hn : limit - pos using Nat.strongRecOn generalizing pos with
  | ind n ih =>
    by_cases h : ∃ head : BlockHead, head.In b limit ∧ head.pos = pos
    · obtain ⟨head, hin, rfl⟩ := h
      have hroom := hin.room
      have hlong := hin.long
      obtain ⟨rest, hrest, hlength⟩ := ih _ (by omega) (head.pos + head.size) rfl
      refine ⟨head :: rest, .turn hin hrest, ?_⟩
      rw [List.length_cons]
      omega
    · exact ⟨[], .stop fun head hin hpos => h ⟨head, hin, hpos⟩, by simp⟩

/-- The scan yields the relocations of the blocks that it comes to. -/
theorem Scan.blocks_eq {pos : Nat} {heads : List BlockHead} (h : Scan b limit pos heads) :
    (blocks b sections base limit pos : Checked ε _) =
      List.flatten <$> heads.mapM fun head => head.relocations b sections base := by
  induction h with
  | stop h => exact blocks_of_no_head h
  | @turn head rest hin _ ih =>
    rw [hin.blocks_eq, ih, List.mapM_cons]
    cases (head.relocations b sections base : Checked ε _) with
    | error e => rfl
    | ok first =>
      cases (rest.mapM fun head => head.relocations b sections base : Checked ε _) with
      | error e => rfl
      | ok others => rfl

/-- A table of blocks yields what its entries say, in their order. -/
theorem blocks_of_table {ks : List RelocBlock} {pos : Nat} {rest : List UInt8}
    (h : b.toList.drop pos = ks.flatMap RelocBlock.bytes ++ rest)
    (hfits : ∀ e ∈ tableOf ks, SiteFits base e.1 e.2) :
    ∃ found : List (Option Relocation),
      List.Forall₂ (fun e o => ∀ r, o = some r ↔ Decodes sections base e.1 e.2 r)
        (tableOf ks) found ∧
      (blocks b sections base (pos + (ks.flatMap RelocBlock.bytes).length) pos : Checked ε _) =
        .ok (found.filterMap id) := by
  induction ks generalizing pos with
  | nil =>
    refine ⟨[], .nil, ?_⟩
    rw [blocks, if_neg (by simp)]
    rfl
  | cons k ks ih =>
    rw [List.flatMap_cons, List.append_assoc] at h
    obtain ⟨hpage, hsize, hentries⟩ := read_head h
    have hnext := Binary.drop_of_drop_append h
    rw [RelocBlock.length_bytes] at hnext
    rw [tableOf, List.flatMap_cons, ← tableOf] at hfits ⊢
    have hlength : pos + ((k :: ks).flatMap RelocBlock.bytes).length =
        pos + k.size + (ks.flatMap RelocBlock.bytes).length := by
      rw [List.flatMap_cons, List.length_append, RelocBlock.length_bytes, Nat.add_assoc]
    have hlong : 8 ≤ k.size := Nat.le_add_right 8 _
    have hcount : (k.size - 8) / 2 = k.entries.length := by
      rw [RelocBlock.size]
      omega
    have hroom : pos + 8 ≤ pos + k.size + (ks.flatMap RelocBlock.bytes).length := by omega
    -- The first block is one turn of the scan, and the next turn starts where the rest does.
    have hin : BlockHead.In ⟨pos, k.page.toNat, k.size⟩ b
        (pos + k.size + (ks.flatMap RelocBlock.bytes).length) := ⟨hroom, hpage, hsize, hlong⟩
    obtain ⟨first, hfirst, hblock⟩ := block_of_drop hentries fun e he =>
      hfits (k.page, e) (List.mem_append_left _ (List.mem_map_of_mem he))
    obtain ⟨others, hothers, hblocks⟩ := ih hnext fun e he => hfits e (List.mem_append_right _ he)
    refine ⟨first ++ others, List.rel_append (List.forall₂_map_left_iff.mpr hfirst) hothers, ?_⟩
    rw [hlength, hin.blocks_eq, BlockHead.relocations, hcount, hblock, hblocks,
      List.filterMap_append]
    rfl

/-- The base relocations of a file whose directory is located.  Whatever the bytes of the
directory are, the scan comes to at most one head for eight bytes of it, and yields the
relocations of these blocks.  Where they are those of a table of blocks, and the places of the
table's values are addresses, each entry in its turn yields the relocation that it says, and the
others none. -/
theorem File.relocations_decode {f : File} {d : Directory} {start : Nat}
    (hd : f.baseRelocations = some d) (hstart : Located d.address f.sections start) (b : Bytes)
    (sections : List Section) :
    (∃ heads, Scan b (start + d.size.toNat) start heads ∧ 8 * heads.length ≤ d.size.toNat ∧
      (f.relocations b sections : Checked ε _) =
        List.flatten <$> heads.mapM fun head => head.relocations b sections f.imageBase) ∧
    ∀ ks : List RelocBlock,
      Binary.slice? b start d.size.toNat = some (ks.flatMap RelocBlock.bytes).toArray →
      (∀ e ∈ tableOf ks, SiteFits f.imageBase e.1 e.2) →
      ∃ found : List (Option Relocation),
        List.Forall₂ (fun e o => ∀ r, o = some r ↔ Decodes sections f.imageBase e.1 e.2 r)
          (tableOf ks) found ∧
        (f.relocations b sections : Checked ε _) = .ok (found.filterMap id) := by
  have hblocks : (f.relocations b sections : Checked ε _) =
      blocks b sections f.imageBase (start + d.size.toNat) start := by
    rw [File.relocations, hd]
    show ((offsetOf? d.address f.sections).bind _) = _
    rw [offsetOf?_of_located hstart]
    rfl
  rw [hblocks]
  constructor
  · obtain ⟨heads, hscan, hlength⟩ := exists_scan b (start + d.size.toNat) start
    exact ⟨heads, hscan, by omega, hscan.blocks_eq⟩
  · intro ks hslice hfits
    obtain ⟨rest, hdrop, hlength⟩ := Binary.drop_of_slice? hslice
    rw [← hlength]
    exact blocks_of_table hdrop hfits

/-- A section without a name, as large in memory as in the file. -/
def SectionHeader.plain (address length offset : UInt32) : SectionHeader :=
  { label := [], longName := none, virtualSize := length, virtualAddress := address
    rawSize := length, rawOffset := offset, relocations := 0, lineNumbers := 0
    relocationCount := 0, lineNumberCount := 0, flags := 0 }

/-- A file with 24 bytes for the page at 0x1000 and a directory behind them. -/
def File.paged (imageBase : Word) (size : UInt32) : File :=
  { machine := 0x8664, imageBase, entry := 0, imports := []
    sections := [.plain 0x1000 24 0, .plain 0x2000 size 24]
    baseRelocations := some ⟨0x2000, size⟩ }

/-- The 24 bytes: the numbers 1, 2, 3, 4, 5 and 6 of four bytes each. -/
def pagedData : List UInt8 := [1, 2, 3, 4, 5, 6].flatMap (Binary.littleEndian · 4)

/-- The page, with its bytes, in memory. -/
def pagedSections (imageBase : Word) : List Section :=
  [{ name := "", address := imageBase + 0x1000, size := 0x20, executable := false
     writable := true, data := some pagedData.toArray }]

theorem located_paged (imageBase : Word) {size : UInt32} (hpos : 0 < size.toNat)
    (hsize : size.toNat < 0x1000) :
    Located 0x2000 (File.paged imageBase size).sections 24 := by
  have hspan : (SectionHeader.plain 0x2000 size 24).span = size.toNat := Nat.max_self _
  have hfirst : ¬ (SectionHeader.plain 0x1000 24 0).Covers 0x2000 := by decide
  have hcovers : (SectionHeader.plain 0x2000 size 24).Covers 0x2000 := by
    refine ⟨Nat.le_refl _, ?_⟩
    rw [hspan]
    exact Nat.lt_add_of_pos_right hpos
  refine .later hfirst (fun _ => by decide) (.here hcovers ?_ ?_)
  · rw [hspan]
    show 0x2000 + size.toNat < 0x100000000
    omega
  · show 24 + (0x2000 - 0x2000) < 0x100000000
    decide

/-- Three blocks: values of both sizes, one that runs out of the bytes of the page, padding, and
a page that no section has. -/
def pagedBlocks : List RelocBlock :=
  [⟨0x1000, [0x3004, 0xa008, 0x3015, 0], by decide⟩, ⟨0x5000, [0xa000], by decide⟩,
    ⟨0x1000, [0x3000, 0], by decide⟩]

theorem File.relocations_decode_paged :
    let f := File.paged 0x400000 38
    let b : Bytes := (pagedData ++ pagedBlocks.flatMap RelocBlock.bytes).toArray
    let expected : List Relocation :=
      [⟨0x401004, 2, 4, 0⟩, ⟨0x401008, 0x400000003, 8, 0⟩, ⟨0x401000, 1, 4, 0⟩]
    Located 0x2000 f.sections 24 ∧
    Binary.slice? b 24 38 = some (pagedBlocks.flatMap RelocBlock.bytes).toArray ∧
    (f.relocations b (pagedSections 0x400000) : Checked Empty _) = .ok expected ∧
    ∃ found : List (Option Relocation), found.filterMap id = expected ∧
      List.Forall₂
        (fun e o => ∀ r, o = some r ↔ Decodes (pagedSections 0x400000) 0x400000 e.1 e.2 r)
        (tableOf pagedBlocks) found := by
  intro f b expected
  have hslice : Binary.slice? b 24 38 = some (pagedBlocks.flatMap RelocBlock.bytes).toArray := by
    decide +kernel
  have hall : (tableOf pagedBlocks).all (fun e => decide (SiteFits 0x400000 e.1 e.2)) = true := by
    decide +kernel
  have hfits : ∀ e ∈ tableOf pagedBlocks, SiteFits 0x400000 e.1 e.2 := fun e he =>
    of_decide_eq_true (List.all_eq_true.mp hall e he)
  have hrun : (f.relocations b (pagedSections 0x400000) : Checked Empty _) = .ok expected := by
    decide +kernel
  have hlocated : Located 0x2000 f.sections 24 := located_paged 0x400000 (by decide) (by decide)
  have hdirectory : f.baseRelocations = some ⟨0x2000, 38⟩ := rfl
  obtain ⟨found, hfound, hok⟩ := (File.relocations_decode hdirectory hlocated b
    (pagedSections 0x400000)).2 pagedBlocks hslice hfits
  exact ⟨hlocated, hslice, hrun, found, Except.ok.inj (hok.symm.trans hrun), hfound⟩

/-- An entry for a value whose place would be behind the last address says nothing, and yet ends
the loading. -/
theorem File.relocations_wrapping :
    let f := File.paged 0xffffffffffff0000 12
    let blocks : List RelocBlock := [⟨0x10000, [0xa000, 0], by decide⟩]
    let b : Bytes := (pagedData ++ blocks.flatMap RelocBlock.bytes).toArray
    let sections := pagedSections 0xffffffffffff0000
    Located 0x2000 f.sections 24 ∧
    Binary.slice? b 24 12 = some (blocks.flatMap RelocBlock.bytes).toArray ∧
    (∀ e ∈ tableOf blocks, ∀ r, ¬ Decodes sections f.imageBase e.1 e.2 r) ∧
    (f.relocations b sections : Checked Empty _) = .error .overflow := by
  intro f blocks b sections
  refine ⟨located_paged _ (by decide) (by decide), by decide +kernel, ?_, by decide +kernel⟩
  intro e he r hr
  have htable : tableOf blocks = [(0x10000, 0xa000), (0x10000, 0)] := rfl
  rw [htable, List.mem_cons, List.mem_singleton] at he
  obtain rfl | rfl := he
  · -- The place would be the address behind the last one.
    have hlt := r.site.toNat_lt
    rw [hr.site] at hlt
    exact absurd hlt (by decide)
  · -- The type of padding is for no value.
    obtain ⟨htype, -⟩ | ⟨htype, -⟩ := hr.width
    · exact absurd htype (by decide)
    · exact absurd htype (by decide)

end Pe

end FlowRecovery
