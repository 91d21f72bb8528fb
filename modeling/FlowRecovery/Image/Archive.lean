/-
Checking an archive.

An archive is recognised but not loaded.  Its members stand one behind the other,
each at an even offset behind a header of 60 bytes.  Some members are not files but
describe the others: an index that says which member defines a symbol, of which
there are three layouts, and a table of long names.
-/
import FlowRecovery.Image.StringTable
import FlowRecovery.Text.Blank
import FlowRecovery.Text.Quoted

namespace FlowRecovery.Archive

/-- A member of an archive. -/
structure Member where
  /-- Where its header is. -/
  header : Nat
  /-- What the header calls it, with blanks behind. -/
  name : String
  /-- The name between header and contents, if the header says that it is there. -/
  longName : Option String := none
  start : Nat
  size : Nat
  deriving DecidableEq, Repr, Inhabited

/-- The text without the characters at its end that the test finds. -/
def dropEnd (test : Char → Bool) (cs : List Char) : List Char :=
  (cs.reverse.dropWhile test).reverse

/-- The length of the name behind the header, for a header that gives it. -/
def longNameLength? (name : String) : Option Nat :=
  match name.toList with
  | '#' :: '1' :: '/' :: rest => Text.readUnsigned? 10 UInt64.size (dropEnd (· == ' ') rest)
  | _ => none

/-- Read the member at an offset. -/
def member (b : Bytes) (offset : Nat) : Checked ImageError Member := do
  let name ← Required.textOf b offset 16
  let _ ← Required.slice b offset 60
  let digits ← Required.textOf b (offset + 48) 10
  let size ← needed (.unsound "Bad file_size in header")
    (Text.readUnsigned? 10 UInt64.size (dropEnd Text.isBlank digits.toList))
  match longNameLength? name with
  | none => return { header := offset, name, start := offset + 60, size }
  | some length =>
    let long ← Required.textOf b (offset + 60) length
    let rest ← checkedSub (.ofNat size) (.ofNat length)
    return { header := offset, name, start := offset + 60 + length, size := rest.toNat
             longName := some (String.ofList (dropEnd (·.toNat = 0) long.toList)) }

/-- The layouts of an index. -/
inductive IndexLayout where
  | plain
  | sorted
  | paired
  deriving DecidableEq, Repr, Inhabited

/-- What an index says: at which offset there is a member that defines a symbol. -/
abbrev Index := List (Nat × String)

/-- Read an index: a count, the offsets, and a text for each. -/
def plainIndex (data : Bytes) : Checked ImageError Index := do
  let count ← Required.nat .big data 0 4
  need (count ≤ data.size / 4) (.tooShort count "indexes")
  let offsets ← Required.records (Required.nat .big data · 4) 4 4 count
  let at_ := 4 + 4 * count
  let texts ← StringTable.read data at_ (data.size - at_)
  return offsets.zip texts.texts

/-- Read an index that lists the offsets first, and for each text the number of an offset,
counted from one. -/
def sortedIndex (data : Bytes) : Checked ImageError Index := do
  let count ← Required.nat .little data 0 4
  need (count ≤ data.size / 4) (.tooShort count "members")
  let members ← Required.records (Required.nat .little data · 4) 4 4 count
  let at_ := 4 + 4 * count
  let symbols ← Required.nat .little data at_ 4
  need (symbols ≤ data.size / 2) (.tooShort symbols "symbols")
  let readMember (offset : Nat) : Checked ImageError Nat := do
    let number ← Required.nat .little data offset 2
    match if number = 0 then none else members[number - 1]? with
    | some member => return member
    | none => .error .overflow
  let offsets ← Required.records readMember 2 (at_ + 4) symbols
  let at_ := at_ + 4 + 2 * symbols
  let texts ← StringTable.read data at_ (data.size - at_)
  return offsets.zip texts.texts

/-- Read an index of pairs: where the text is in the table behind them, and the offset. -/
def pairedIndex (data : Bytes) : Checked ImageError Index := do
  let size ← Required.nat .little data 0 4
  let textSize ← Required.nat .little data (size + 4) 4
  let texts ← StringTable.read data (size + 8) textSize
  (List.range (size / 8)).mapM fun n => do
    let text ← Required.nat .little data (8 * n + 4) 4
    let offset ← Required.nat .little data (8 * n + 8) 4
    let fault := "__.SYMDEF entry " ++ Text.decimal n ++ " has string offset " ++ Text.decimal text
      ++ ", which is outside the string table"
    return (offset, ← needed (.unsound fault) (texts.get? text))

/-- What has been read of an archive: where the members that are files are, and where the
index says that there are some. -/
structure Contents where
  files : List Nat := []
  index : Index := []
  layout : Option IndexLayout := none
  deriving DecidableEq, Repr, Inhabited

/-- The name of an index. -/
def indexName : String := "/               "

/-- The name of the table of long names. -/
def nameTableName : String := "//              "

/-- The names of an index of pairs. -/
def pairedIndexNames : List String := ["__.SYMDEF", "__.SYMDEF SORTED"]

/-- Take over a member.  Of the second plain index the layout is another. -/
def Contents.add (c : Contents) (b : Bytes) (m : Member) : Checked ImageError Contents := do
  if m.name = indexName then
    let data ← Required.slice b m.start m.size
    match c.layout with
    | none => return { c with index := ← plainIndex data, layout := some .plain }
    | some .plain => return { c with index := ← sortedIndex data, layout := some .sorted }
    | some .paired => malformed (.unsound "SysV index occurs after BSD index")
    | some .sorted => malformed (.unsound "More than two Windows Linker members")
  else if m.longName.any pairedIndexNames.contains then
    need c.layout.isNone (.unsound "BSD index occurs after SysV index")
    let data ← Required.slice b m.start m.size
    return { c with index := ← pairedIndex data, layout := some .paired }
  else if m.name = nameTableName then
    let _ ← StringTable.read b (m.start - 1) (m.size + 1)
    return c
  else return { c with files := c.files ++ [m.header] }

/-- Take over the members from an offset on. -/
def Contents.read (b : Bytes) (c : Contents) (offset : Nat) : Nat → Checked ImageError Contents
  | 0 => .ok c
  | fuel + 1 =>
    if offset + 1 < b.size then do
      let m ← member b (offset + offset % 2)
      Contents.read b (← c.add b m) (m.start + m.size) fuel
    else .ok c

/-- Check an archive: every offset in the index is that of a file. -/
def check (b : Bytes) : Checked ImageError Unit := do
  let c ← Contents.read b {} 8 b.size
  let files := c.files.map (· % 0x100000000)
  c.index.forM fun (offset, name) =>
    need (files.contains offset) (.unsound ("Could not get member " ++ Text.quoted name
      ++ " at offset: " ++ Text.decimal offset))

end FlowRecovery.Archive
