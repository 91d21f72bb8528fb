/-
A host whose files are a value.

A tree holds, under the names that lead to it from the root, every directory,
file and link.  A path is resolved component by component: a link is replaced by
what it leads to, at most forty times, and the last component may be left
unresolved.  A slash at the end asks for a directory.
-/
import FlowRecovery.Binary
import FlowRecovery.Host
import FlowRecovery.Path

namespace FlowRecovery

/-- What stands under a path. -/
inductive FileEntry where
  | dir
  | file (contents : Bytes)
  | link (target : String)
  deriving DecidableEq, Repr

/-- The files of a machine. -/
structure FileTree where
  entries : List (List String × FileEntry) := []
  deriving Repr

namespace FileTree

/-- What stands under the names; the root is a directory. -/
def get? (t : FileTree) (names : List String) : Option FileEntry :=
  if names.isEmpty then some .dir else t.entries.lookup names

/-- Put something under the names. -/
def put (t : FileTree) (names : List String) (e : FileEntry) : FileTree :=
  { entries := (names, e) :: t.entries.filter (·.1 != names) }

/-- Remove what stands under the names. -/
def erase (t : FileTree) (names : List String) : FileTree :=
  { entries := t.entries.filter (·.1 != names) }

/-- The components of a path; empty ones do not count. -/
def components (path : String) : List String := (Path.segments path).filter (· != "")

/-- Whether a path asks for a directory. -/
def asksForDir (path : String) : Bool := path.endsWith "/"

/-- The bytes that a name may have. -/
def nameLimit : Nat := 255

/-- The bytes that a path may have. -/
def pathLimit : Nat := 4095

/-- How many links are followed. -/
def linkLimit : Nat := 40

/-- Refuse what cannot be a path. -/
def checkPath (path : String) : Except FileError Unit :=
  if path.toList.any (·.toNat = 0) then .error .zeroCharacter
  else if path.isEmpty then .error .notFound
  else if pathLimit < path.utf8ByteSize then .error .nameTooLong
  else .ok ()

/-- Where a path starts for somebody in a directory. -/
def start (dir : List String) (path : String) : List String :=
  if Path.isAbsolute path then [] else dir

/-- Follow components from a directory, through at most `links` links.  The result need
not be there, but the directory that holds it is.  A link at the end is followed if
`follow` says so, or if a directory is wanted. -/
def walk (t : FileTree) (follow : Bool) (links : Nat) (wantsDir : Bool) (here : List String) :
    List String → Except FileError (List String)
  | [] => .ok here
  | name :: rest =>
    if nameLimit < name.utf8ByteSize then .error .nameTooLong
    else if name = "." then walk t follow links wantsDir here rest
    else if name = ".." then walk t follow links wantsDir here.dropLast rest
    else
      let next := here ++ [name]
      match t.get? next with
      | none => if rest.isEmpty then .ok next else .error .notFound
      | some .dir => walk t follow links wantsDir next rest
      | some (.file _) => if rest.isEmpty && !wantsDir then .ok next else .error .notDirectory
      | some (.link target) =>
        if rest.isEmpty && !follow && !wantsDir then .ok next
        else
          match links with
          | 0 => .error .linkLoop
          | links + 1 =>
            walk t follow links (wantsDir || (rest.isEmpty && asksForDir target))
              (start here target) (components target ++ rest)
termination_by names => (links, names.length)

/-- The names that a path leads to from a directory. -/
def locate (t : FileTree) (dir : List String) (follow : Bool) (path : String) :
    Except FileError (List String) := do
  checkPath path
  t.walk follow linkLimit (asksForDir path) (start dir path) (components path)

/-- What a path leads to. -/
def find (t : FileTree) (dir : List String) (path : String) :
    Except FileError (List String × FileEntry) := do
  let names ← t.locate dir true path
  match t.get? names with
  | some e => .ok (names, e)
  | none => .error .notFound

/-- Whether a path leads to a directory. -/
def isDir (t : FileTree) (dir : List String) (path : String) : Bool :=
  match t.find dir path with
  | .ok (_, .dir) => true
  | _ => false

/-- The directory that a path leads into, and the name in it.  The root and paths that end
in dots have no name. -/
def locateParent (t : FileTree) (dir : List String) (path : String) :
    Except FileError (List String × Option String) := do
  checkPath path
  match (components path).getLast? with
  | none => .ok ([], none)
  | some last =>
    let parent ← t.walk true linkLimit true (start dir path) (components path).dropLast
    if (t.get? parent).isNone then .error .notFound
    else if last = "." ∨ last = ".." then .ok (parent, none)
    else if nameLimit < last.utf8ByteSize then .error .nameTooLong
    else .ok (parent, some last)

/-- The file that is written under a path, through at most `links` links. -/
def locateFile (t : FileTree) : Nat → List String → String → Except FileError (List String)
  | links, dir, path => do
    let (parent, some name) ← t.locateParent dir path | .error .isDirectory
    if asksForDir path then .error .isDirectory
    match t.get? (parent ++ [name]), links with
    | some .dir, _ => .error .isDirectory
    | some (.link _), 0 => .error .linkLoop
    | some (.link target), links + 1 => t.locateFile links parent target
    | _, _ => .ok (parent ++ [name])

/-- The contents of a file. -/
def read (t : FileTree) (dir : List String) (path : String) : Except FileError Bytes := do
  match ← t.find dir path with
  | (_, .file contents) => .ok contents
  | _ => .error .isDirectory

/-- Write a file. -/
def write (t : FileTree) (dir : List String) (path : String) (contents : Bytes) :
    Except FileError FileTree := do
  return t.put (← t.locateFile linkLimit dir path) (.file contents)

/-- The names in a directory. -/
def list (t : FileTree) (dir : List String) (path : String) : Except FileError (List String) := do
  match ← t.find dir path with
  | (names, .dir) =>
    .ok (t.entries.filterMap fun e =>
      if e.1.dropLast = names ∧ e.1 ≠ [] then e.1.getLast? else none)
  | _ => .error .notDirectory

/-- Put a new thing under a path. -/
def create (t : FileTree) (dir : List String) (path : String) (e : FileEntry) :
    Except FileError FileTree := do
  let (parent, some name) ← t.locateParent dir path | .error .exists_
  if (t.get? (parent ++ [name])).isSome then .error .exists_
  else if asksForDir path ∧ e ≠ .dir then .error .notFound
  else .ok (t.put (parent ++ [name]) e)

/-- Make the directory at the head of a chain, after those that it misses.  What has been
made stays, even if the rest cannot be made. -/
def makeChain (dir : List String) (t : FileTree) : List String → Except FileError Unit × FileTree
  | [] => (.ok (), t)
  | path :: above =>
    let settle (t : FileTree) (r : Except FileError FileTree) : Except FileError Unit × FileTree :=
      match r with
      | .ok t => (.ok (), t)
      | .error .exists_ => (if t.isDir dir path then .ok () else .error .exists_, t)
      | .error e => (.error e, t)
    match t.create dir path .dir with
    | .error .notFound =>
      match makeChain dir t above with
      | (.ok (), t) => settle t (t.create dir path .dir)
      | failed => failed
    | r => settle t r

/-- Make a directory together with those that lead to it. -/
def makeDirs (t : FileTree) (dir : List String) (path : String) :
    Except FileError Unit × FileTree :=
  makeChain dir t (Path.chain (path.length + 1) path)

/-- Remove a file or a link. -/
def remove (t : FileTree) (dir : List String) (path : String) : Except FileError FileTree := do
  let (parent, some name) ← t.locateParent dir path | .error .isDirectory
  match t.get? (parent ++ [name]) with
  | none => .error .notFound
  | some .dir => .error .isDirectory
  | some _ => if asksForDir path then .error .notDirectory else .ok (t.erase (parent ++ [name]))

/-- Put something under a path, after the directories that lead to it; what cannot be put
there is left out. -/
def install (t : FileTree) (dir : List String) (path : String) (e : FileEntry) : FileTree :=
  let t := (t.makeDirs dir ((Path.parent? path).getD "")).2
  match e with
  | .dir => (t.makeDirs dir path).2
  | .file contents => ((t.write dir path contents).toOption).getD t
  | .link _ => ((t.create dir path e).toOption).getD t

/-- How an entry is listed: a directory ends in a slash, and a link shows where it leads. -/
def describe (path : String) : FileEntry → String
  | .dir => path ++ "/"
  | .file _ => path
  | .link target => path ++ " -> " ++ target

/-- Everything below a directory, in order. -/
def listing (t : FileTree) (dir : List String) : List String :=
  let below := t.entries.filterMap fun e =>
    if dir.isPrefixOf e.1 ∧ e.1 ≠ dir then
      some (describe ("/".intercalate (e.1.drop dir.length)) e.2)
    else none
  below.mergeSort (fun a b => decide (a ≤ b))

end FileTree

/-- A machine that is a value. -/
structure Machine where
  files : FileTree
  /-- The names that lead to the working directory. -/
  dir : List String
  /-- What its clock shows. -/
  time : String
  /-- What its disassembler finds. -/
  decode : X86.Decoder

namespace Machine

/-- An absolute path. -/
def absolute (names : List String) : String := "/" ++ "/".intercalate names

/-- Change the files, if that is possible. -/
def update (f : FileTree → List String → Except FileError FileTree) :
    StateM Machine (Except FileError Unit) := fun s =>
  match f s.files s.dir with
  | .ok files => (.ok (), { s with files })
  | .error e => (.error e, s)

/-- Ask something of the files. -/
def query {α : Type} (f : FileTree → List String → α) : StateM Machine α := fun s =>
  (f s.files s.dir, s)

instance : Host (StateM Machine) where
  currentDir := query fun _ dir => absolute dir
  canonical? path := query fun t dir => ((t.find dir path).toOption).map fun e => absolute e.1
  isFile path := query fun t dir =>
    match t.find dir path with
    | .ok (_, .file _) => true
    | _ => false
  isPresent path := query fun t dir =>
    match t.locate dir false path with
    | .ok names => (t.get? names).isSome
    | .error _ => false
  read path := query fun t dir => t.read dir path
  write path contents := update fun t dir => t.write dir path contents
  list path := query fun t dir => t.list dir path
  makeDir path := update fun t dir => t.create dir path .dir
  makeDirs path := fun s =>
    let (result, files) := s.files.makeDirs s.dir path
    (result, { s with files })
  remove path := update fun t dir => t.remove dir path
  link target path := update fun t dir => t.create dir path (.link target)
  now := fun s => (s.time, s)
  clock := pure 0
  decoder _ := fun s => (s.decode, s)

end Machine

end FlowRecovery
