/-
Sections, imports and relocations as JSON.

The contents of a section are not part of its written form.
-/
import FlowRecovery.Image
import FlowRecovery.Json.Record

namespace FlowRecovery

namespace Arch

/-- The architecture with exactly the given name. -/
def ofName? : String → Option Arch
  | "x86" => some .x86
  | "x86_64" => some .x86_64
  | _ => none

/-- Read an architecture. -/
def ofJson? (j : Json) : Option Arch := j.name?.bind ofName?

end Arch

/-- Read a format. -/
def ImageFormat.ofJson? (j : Json) : Option ImageFormat :=
  match j.name? with
  | some "elf" => some .elf
  | some "pe" => some .pe
  | some "raw" => some .raw
  | _ => none

namespace Section

/-- The section as JSON. -/
def toJson (s : Section) : Json :=
  .obj [("name", .str s.name), ("address", .word s.address), ("size", .word s.size),
    ("executable", .bool s.executable), ("writable", .bool s.writable)]

/-- Read a section; it has no contents. -/
def ofJson? (j : Json) : Option Section := do
  let r ← j.fields? ["name", "address", "size", "executable", "writable"]
  return { name := ← r.required "name" Json.str?
           address := ← r.required "address" Json.word?
           size := ← r.required "size" Json.word?
           executable := ← r.required "executable" Json.bool?
           writable := ← r.required "writable" Json.bool?
           data := none }

end Section

namespace Import

/-- The import as JSON; a missing library is left out. -/
def toJson (i : Import) : Json :=
  let library := match i.library with
    | none => []
    | some library => [("library", Json.str library)]
  .obj (("name", .str i.name) :: library)

/-- Read an import. -/
def ofJson? (j : Json) : Option Import := do
  let r ← j.fields? ["name", "library"]
  return { name := ← r.required "name" Json.str?
           library := ← r.optionalAnywhere "library" Json.str? }

end Import

namespace Relocation

/-- The relocation as JSON. -/
def toJson (r : Relocation) : Json :=
  .obj [("site", .word r.site), ("target", .word r.target), ("size", .int false r.size.toNat),
    ("addend", .int64 r.addend)]

/-- Read a relocation. -/
def ofJson? (j : Json) : Option Relocation := do
  let r ← j.fields? ["site", "target", "size", "addend"]
  return { site := ← r.required "site" Json.word?
           target := ← r.required "target" Json.word?
           size := ← r.required "size" Json.byte?
           addend := ← r.required "addend" Json.int64? }

end Relocation

end FlowRecovery
