/-
Where a history is kept, as its name says.

A name is the path of a file, or, behind `file:`, the path with escapes and
options: whether the file is only read, whether it is made, or whether there is no
file at all.  Two names stand for histories that are not kept: the empty one and
`:memory:`.
-/
import FlowRecovery.Binary
import FlowRecovery.Text.Digits

namespace FlowRecovery.History

/-- Where a history is kept, and what may be done there. -/
structure Location where
  /-- The path of its file, if it is kept. -/
  file : Option String := none
  /-- Whether the file is made if it is missing. -/
  creates : Bool := true
  writes : Bool := true
  deriving DecidableEq, Repr, Inhabited

namespace Location

/-- The path of a file, or no file for a name that stands for none. -/
def fileNamed (name : String) : Option String :=
  if name = "" ∨ name = ":memory:" then none else some name

/-- The bytes that a text with escapes stands for, up to an escaped zero. -/
def unescape : List Char → List UInt8
  | [] => []
  | '%' :: a :: b :: rest =>
    match Text.readOn 16 0 [a, b] with
    | some 0 => []
    | some n => UInt8.ofNat n :: unescape rest
    | none => 0x25 :: unescape (a :: b :: rest)
  | c :: rest => (String.singleton c).toUTF8.toList ++ unescape rest

/-- The text that a text with escapes stands for. -/
def unescaped? (cs : List Char) : Option String := Binary.text? (unescape cs)

/-- The characters before the first one that the test finds, and those behind it. -/
def cut (test : Char → Bool) (cs : List Char) : List Char × List Char :=
  (cs.takeWhile (!test ·), (cs.dropWhile (!test ·)).drop 1)

/-- The options in a list divided by ampersands, each a name and a value. -/
def options? (cs : List Char) : Option (List (String × String)) := do
  let items := (String.ofList cs).splitOn "&"
  let pairs ← items.mapM fun item => do
    let (name, value) := cut (· == '=') item.toList
    return (← unescaped? name, ← unescaped? value)
  return pairs.filter (·.1 != "")

/-- The path behind the name of the machine, which has to be this one. -/
def localPath? : List Char → Option (List Char)
  | '/' :: '/' :: rest =>
    let machine := rest.takeWhile (· != '/')
    if machine.isEmpty ∨ machine = "localhost".toList then some (rest.dropWhile (· != '/'))
    else none
  | cs => some cs

/-- The kinds of access, with a rank that may not grow. -/
def modes : List (String × Nat) := [("ro", 1), ("rw", 2), ("rwc", 6), ("memory", 0)]

/-- The rank of the access after an option. -/
def access? (rank : Nat) (option : String × String) : Option Nat := do
  match option.1 with
  | "mode" =>
    let next ← modes.lookup option.2
    if next ≤ rank ∨ rank = 0 then return next else none
  | "cache" => if option.2 = "shared" ∨ option.2 = "private" then return rank else none
  | _ => return rank

/-- The ways of access to files that there are. -/
def drivers : List String := ["unix", "unix-none", "unix-dotfile", "unix-excl", "memdb"]

/-- Whether the value of an option says yes. -/
def isYes (value : String) : Bool :=
  ["on", "yes", "true"].contains value
    || (Text.readDigits? 10 (value.toList.takeWhile Char.isDigit)).any (· != 0)

/-- The location that a name behind `file:` gives. -/
def ofEscaped? (cs : List Char) : Option Location := do
  let (path, query) := cut (· == '?') ((← localPath? cs).takeWhile (· != '#'))
  let name ← unescaped? path
  let options ← options? query
  let rank ← options.foldlM access? 6
  let driver := ((options.filter (·.1 == "vfs")).getLast?.map (·.2)).getD "unix"
  if !drivers.contains driver then none
  let immutable := (options.lookup "immutable").any isYes
  if rank = 0 ∨ driver = "memdb" then return {}
  return { file := fileNamed name, creates := rank = 6, writes := rank ≠ 1 && !immutable }

/-- The location that a name gives. -/
def ofName? (name : String) : Option Location :=
  match name.toList with
  | 'f' :: 'i' :: 'l' :: 'e' :: ':' :: rest => ofEscaped? rest
  | cs => if cs.any (·.toNat = 0) then none else some { file := fileNamed name }

end Location

end FlowRecovery.History
