/-
Paths, as texts whose components are divided by slashes.

Empty components and single dots carry no meaning, except that a leading dot and
a leading slash are kept by `parent?`.  Nothing here looks at the file system.
-/

namespace FlowRecovery.Path

/-- The texts between the slashes. -/
def segments (path : String) : List String := path.splitOn "/"

/-- Whether a segment names something. -/
def isName (s : String) : Bool := s != "" && s != "."

/-- The components that name something, in order. -/
def names (path : String) : List String := (segments path).filter isName

/-- Whether the path starts at the root. -/
def isAbsolute (path : String) : Bool := path.startsWith "/"

/-- The last component, unless it is the way up. -/
def fileName? (path : String) : Option String :=
  (names path).getLast?.filter (· != "..")

/-- The path `path` seen from `base`. -/
def join (base path : String) : String :=
  if isAbsolute path || base.isEmpty then path
  else if base.endsWith "/" then base ++ path
  else base ++ "/" ++ path

/-- Drop the segments at the end that name nothing. -/
def trimEnd (segs : List String) : List String :=
  (segs.reverse.dropWhile fun s => !isName s).reverse

/-- The path without its last component; the root and the empty path have none. -/
def parent? (path : String) : Option String :=
  match segments path with
  | [] => none
  | first :: rest =>
    let named := trimEnd rest
    if named.isEmpty then if isAbsolute path || path.isEmpty then none else some ""
    else
      match trimEnd named.dropLast with
      | [] => some (if first.isEmpty then "/" else first)
      | front => some ("/".intercalate (first :: front))

/-- The path and those that lead to it, the nearest first, as far as there is something to
make; `fuel` bounds their number. -/
def chain : Nat → String → List String
  | 0, _ => []
  | fuel + 1, path =>
    if path.isEmpty then []
    else
      match parent? path with
      | none => []
      | some parent => path :: chain fuel parent

/-- What follows the last dot of the file name, if anything precedes that dot. -/
def extension? (path : String) : Option String := do
  match (← fileName? path).splitOn "." with
  | [] | [_] | ["", _] => none
  | parts => parts.getLast?

end FlowRecovery.Path
