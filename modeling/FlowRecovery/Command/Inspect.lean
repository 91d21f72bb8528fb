/-
The command that shows what an image holds.
-/
import FlowRecovery.Command.Value
import FlowRecovery.Recovery.File

namespace FlowRecovery.Command

/-- What is shown of an image. -/
structure ImageInfo where
  path : String
  image : Image

namespace ImageInfo

/-- An import: its slot, and its name behind that of its library. -/
def importText (slot : Addr) (i : Import) : String :=
  let library := match i.library with
    | some library => library ++ "!"
    | none => ""
  Text.addr slot ++ " " ++ library ++ i.name

/-- The imports, by slot. -/
def imports (i : ImageInfo) : List String :=
  i.image.imports.entries.map fun e => importText e.1 e.2

/-- A section as JSON. -/
def sectionJson (s : Section) : Json :=
  .obj [("name", .str s.name), ("address", .str (Text.addr s.address)), ("size", .word s.size),
    ("executable", .bool s.executable), ("writable", .bool s.writable)]

/-- The whole as JSON. -/
def toJson (i : ImageInfo) : Json :=
  .obj [("path", .str i.path), ("format", .str i.image.format.name),
    ("arch", .str i.image.arch.name),
    ("entry_point", .opt (fun e => .str (Text.addr e)) i.image.entry),
    ("sections", .list sectionJson i.image.sections), ("imports", .list .str i.imports),
    ("relocations", .nat i.image.relocations.length)]

/-- A section in one line. -/
def sectionText (s : Section) : String :=
  "- " ++ s.name ++ " at " ++ Text.addr s.address ++ " (" ++ Text.decimal s.size.toNat ++ " bytes, "
    ++ (if s.executable then "x" else "-") ++ (if s.writable then "w" else "-") ++ ")"

/-- The whole as lines. -/
def text (i : ImageInfo) : String :=
  let lines := ["Image: " ++ i.path, "  Format: " ++ i.image.format.name,
    "  Arch: " ++ i.image.arch.name,
    "  Entry point: " ++ (i.image.entry.map Text.addr).getD "(none)", "Sections:"]
    ++ i.image.sections.map sectionText
    ++ ["Imports: " ++ Text.decimal i.imports.length] ++ i.imports.map ("- " ++ ·)
    ++ ["Relocations: " ++ Text.decimal i.image.relocations.length]
  String.join (lines.map (· ++ "\n"))

end ImageInfo

variable {m : Type → Type} [Monad m] [Host m]

/-- Load the image in a file. -/
def imageInfo (input : String) (traced : Bool := false) : Action m ImageInfo := do
  let path ← (absolutePath input : m _)
  unless ← (Host.isFile path : m _) do
    Action.fail ["Input binary does not exist: " ++ path]
  let image ← Action.checked ("Failed to load image " ++ path) ImageError.causes
    (← (openImage path traced : m _))
  return { path, image }

/-- Show the image in a file. -/
def inspect (input : String) (json traced : Bool) : Action m String := do
  let info ← imageInfo input traced
  if json then return info.toJson.pretty ++ "\n" else return info.text

end FlowRecovery.Command
