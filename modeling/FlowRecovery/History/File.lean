/-
Histories that are kept in files.

A file is found by its full path, in which a slash or a dot at the end means
nothing.  Changes are first noted in a second file beside it, whose name is longer
by eight characters, so that both names have to be possible.
-/
import FlowRecovery.Failure
import FlowRecovery.History.Codec
import FlowRecovery.History.Location
import FlowRecovery.Path

namespace FlowRecovery.History

variable {m : Type → Type} [Monad m] [Host m]

/-- Go on from a directory by one component; the way up leads out of what is there, or of
what is missing. -/
def goOn (here name : String) : m String := do
  if name = ".." then
    let found := (← Host.canonical? here).getD here
    return (Path.parent? found).getD "/"
  else return Path.join here name

/-- The full path of a file. -/
def fullPath (path : String) : m String := do
  let start ← if Path.isAbsolute path then pure "/" else Host.currentDir
  (Path.names path).foldlM goOn start

/-- The bytes that the name of the second file has more. -/
def suffixSize : Nat := 8

/-- Whether a full path is short enough. -/
def pathFits (path : String) : Bool := path.utf8ByteSize + suffixSize ≤ 512

/-- Whether the second file can have a name. -/
def nameFits (path : String) : Bool :=
  (Path.fileName? path).all fun name => name.utf8ByteSize + suffixSize ≤ 255

/-- Write a history to its file. -/
def save (l : Location) (h : History) : m (Except HistoryError Unit) := do
  match l.file with
  | none => return .ok ()
  | some path =>
    let path ← fullPath path
    if !l.writes || !nameFits path then return .error .store
    match ← Host.write path h.toBytes with
    | .ok () => return .ok ()
    | .error _ => return .error .store

/-- The history in a file.  A missing one is made, without contents. -/
def readFile (l : Location) : m (Except HistoryError History) := do
  match l.file with
  | none => return .ok {}
  | some path =>
    let path ← fullPath path
    if !pathFits path then return .error .store
    match ← Host.read path with
    | .error .notFound =>
      if !l.creates then return .error .store
      match ← Host.write path #[] with
      | .ok () => return .ok {}
      | .error _ => return .error .store
    | .error _ => return .error .store
    | .ok contents => return (ofBytes? contents).elim (.error .store) .ok

/-- The history in a file, brought up to date there. -/
def readUpgraded (l : Location) : m (Except HistoryError History) := do
  match ← readFile l with
  | .error e => return .error e
  | .ok old =>
    match old.upgrade with
    | .error e => return .error e
    | .ok h =>
      if h.version = old.version then return .ok h
      match ← save l h with
      | .ok () => return .ok h
      | .error e => return .error e

/-- Open a history, or start one. -/
def openFile (path : String) : Action m (Location × History) := do
  if let some parent := (Path.parent? path).filter (· != "") then
    Action.file ("Failed to create directory for run database at " ++ parent)
      (Host.makeDirs parent : m _)
  let account := "Failed to open run database at " ++ path
  let l ← Action.orFail account HistoryError.causes
    ((Location.ofName? path).elim (.error .store) .ok)
  let h ← Action.orFail account HistoryError.causes (← (readUpgraded l : m _))
  return (l, h)

/-- Open a history that has to be there. -/
def openExisting (path : String) : Action m History := do
  if ← (Host.isFile path : m _) then return (← openFile path).2
  else Action.fail ["Run database does not exist: " ++ path]

/-- Append a run, and what it found if it succeeded. -/
def record (path : String) (r : RunRecord) (t : Option Recovery) : Action m Unit := do
  let (l, h) ← openFile path
  let (h, id) := h.insertRun r
  Action.orFail "Failed to insert translation record" HistoryError.causes
    (← (save l h : m _))
  if let some t := t then
    let account := "Failed to store block and function inventory"
    let h ← Action.orFail account HistoryError.causes
      (h.insertInventory id t.blockRecords t.functionRecords)
    Action.orFail account HistoryError.causes (← (save l h : m _))

end FlowRecovery.History
