/-
Checking a Mach-O file.

Such a file is recognised but not loaded.  It is read as far as it takes to say
that it is one: its header, its load commands one behind the other, and what the
commands refer to.
-/
import FlowRecovery.Image.Required

namespace FlowRecovery.MachO

open Binary (Endian)

/-- The order of bytes that the first bytes of a file announce, and whether its addresses
are wide. -/
structure Encoding where
  wide : Bool
  endian : Endian
  deriving DecidableEq, Repr, Inhabited

/-- A load command. -/
structure LoadCommand where
  offset : Nat
  type : Nat
  size : Nat
  deriving DecidableEq, Repr, Inhabited

/-- The commands by their types, with the bytes that each has at least. -/
def leastSizes : List (Nat × Nat) := [
    (0x1, 56), (0x2, 24), (0x3, 16), (0x4, 16), (0x5, 16), (0x6, 20), (0x7, 20), (0x9, 16),
    (0xB, 80), (0xC, 24), (0xD, 24), (0xE, 12), (0xF, 12), (0x10, 20), (0x11, 40), (0x12, 12),
    (0x13, 12), (0x14, 12), (0x15, 12), (0x16, 16), (0x17, 12), (0x80000018, 24), (0x19, 72),
    (0x1A, 72), (0x1B, 24), (0x8000001C, 12), (0x1D, 16), (0x1E, 16), (0x8000001F, 24), (0x20, 24),
    (0x21, 20), (0x22, 48), (0x80000022, 48), (0x80000023, 24), (0x24, 16), (0x25, 16),
    (0x26, 16), (0x27, 12), (0x80000028, 24), (0x29, 16), (0x2A, 16), (0x2B, 16), (0x2C, 24),
    (0x2D, 16), (0x2E, 16), (0x2F, 16), (0x30, 16), (0x32, 24), (0x80000033, 16),
    (0x80000034, 16)]

/-- The bytes that a command of a type has at least. -/
def leastSize (type : Nat) : Nat := (leastSizes.lookup type).getD 8

/-- Read the load command at an offset; all of it has to be in the file. -/
def LoadCommand.read (e : Encoding) (b : Bytes) (offset : Nat) :
    Checked ImageError LoadCommand := do
  let [type, size] ← Required.record e.endian b offset [4, 4] | Required.incomplete
  need (offset + size ≤ b.size) (.unsound "load command has size larger than remainder of binary")
  let _ ← Required.slice b offset (leastSize type)
  return { offset, type, size }

/-- What the commands say about where the program starts. -/
structure Start where
  /-- The address of the first segment with code. -/
  code : Option Word := none
  /-- The entry point, relative to that segment. -/
  main : Option Word := none
  /-- Whether the state of a thread gives the entry point. -/
  thread : Bool := false
  deriving DecidableEq, Repr, Inhabited

/-- The processors whose thread states have a known layout. -/
def threadProcessors : List Nat := [7, 0x1000007, 12, 0x100000C, 0x200000C, 18]

/-- The name of the segment with code, up to its zero. -/
def codeSegment : List UInt8 := "__TEXT".toUTF8.toList ++ [0]

/-- Take over a segment: its contents have to be in the file. -/
def Start.segment (s : Start) (b : Bytes) (name : Nat) (address offset size : Nat) :
    Checked ImageError Start := do
  if size ≠ 0 then
    let _ ← Required.slice b offset size
  let label := (b.toList.drop name).take 7
  return { s with code := s.code <|> if label = codeSegment then some (.ofNat address) else none }

/-- Check that the text a command refers to, by an offset from its start, can be read. -/
def checkText (e : Encoding) (b : Bytes) (c : LoadCommand) : Checked ImageError Unit := do
  let name ← Required.nat e.endian b (c.offset + 8) 4
  let _ ← Required.text b (c.offset + name)

/-- Take over a command. -/
def Start.command (s : Start) (e : Encoding) (processor : Nat) (b : Bytes) (c : LoadCommand) :
    Checked ImageError Start := do
  match c.type with
  | 0x1 =>
    let [address, _, offset, size] ←
      Required.record e.endian b (c.offset + 24) [4, 4, 4, 4] | return s
    s.segment b (c.offset + 8) address offset size
  | 0x19 =>
    let [address, _, offset, size] ←
      Required.record e.endian b (c.offset + 24) [8, 8, 8, 8] | return s
    s.segment b (c.offset + 8) address offset size
  | 0x2 =>
    let [symbols, _, texts] ← Required.record e.endian b (c.offset + 8) [4, 4, 4]
      | return s
    need (symbols ≤ texts) (.unsound "string table starts before symbol table")
    need (symbols ≤ b.size) (.badOffset symbols)
    return s
  | 0x4 | 0x5 =>
    let count ← Required.nat e.endian b (c.offset + 12) 4
    if b.size < c.offset + 16 + 4 * count then .error .overflow
    need (count ≤ 70) (.unsound ("thread command specifies " ++ Text.decimal count
      ++ " longs for thread state but we handle only 70"))
    if c.type = 0x5 ∧ ¬ s.thread then
      need (threadProcessors.contains processor)
        (.unsound "unable to find instruction pointer of processor")
      return { s with thread := true }
    return s
  | 0xC | 0xD | 0x20 | 0x80000018 | 0x8000001C | 0x8000001F | 0x80000023 =>
    checkText e b c
    return s
  | 0x80000028 =>
    let main ← Required.nat e.endian b (c.offset + 8) 8
    return { s with main := s.main <|> some (.ofNat main) }
  | _ => return s

/-- Take over so many commands from an offset on. -/
def Start.commands (e : Encoding) (processor : Nat) (b : Bytes) (s : Start) (offset : Nat) :
    Nat → Checked ImageError Start
  | 0 => .ok s
  | count + 1 => do
    let c ← LoadCommand.read e b offset
    Start.commands e processor b (← s.command e processor b c) (offset + c.size) count

/-- Check a file.  A program with an entry point needs a segment for it. -/
def check (e : Encoding) (b : Bytes) : Checked ImageError Unit := do
  need (32 ≤ b.size) (.unsound "bytes size is smaller than a Mach-o header")
  let [_, processor, _, _, count, size] ←
    Required.record e.endian b 0 [4, 4, 4, 4, 4, 4] | Required.incomplete
  need (count ≤ size / 8 && size ≤ b.size) (.tooShort count "load commands")
  let s ← Start.commands e processor b {} (if e.wide then 32 else 28) count
  if let some main := s.main then
    let fault := "image specifies LC_MAIN offset but has no __TEXT segment"
    let _ ← checkedAdd (← needed (.unsound fault) s.code) main

end FlowRecovery.MachO
