/-
Modules as JSON.

Operands, callees and instructions are choices: the tag comes first, then the
fields in a fixed order.  `toJson` writes a value and `ofJson?` reads it back; a
missing initialiser is left out, a missing destination or library is null.
-/
import FlowRecovery.Json.Record
import FlowRecovery.Module
import FlowRecovery.Body

namespace FlowRecovery

open Json (Fields)

/-- A choice: its tag, then its fields. -/
def Json.choice (tag name : String) (fields : List (String × Json)) : Json :=
  .obj ((tag, .str name) :: fields)

/-- A temporary as JSON. -/
def Json.temp (t : Temp) : Json := .int false t.toNat

/-- A byte as JSON. -/
def Json.byte (b : UInt8) : Json := .int false b.toNat

namespace Operand

/-- The operand as JSON. -/
def toJson : Operand → Json
  | .const value => .choice "kind" "const" [("value", .word value)]
  | .pc value => .choice "kind" "pc" [("value", .word value)]
  | .temp id => .choice "kind" "temp" [("id", .temp id)]
  | .env => .choice "kind" "env" []
  | .dataRef global offset address => .choice "kind" "data_ref"
      [("global", .str global), ("offset", .word offset), ("address", .word address)]
  | .functionRef name address => .choice "kind" "function_ref"
      [("name", .str name), ("address", .word address)]
  | .importRef name slot => .choice "kind" "import_ref" [("name", .str name), ("slot", .word slot)]

/-- The kinds of operands. -/
def kinds : List String :=
  ["const", "pc", "temp", "env", "data_ref", "function_ref", "import_ref"]

/-- Read an operand that is part of a callee or an instruction. -/
def ofNested? (j : Json) : Option Operand := do
  let (kind, j) ← j.tagged? "kind" kinds
  match kind with
  | "const" =>
    let r ← j.fields? ["value"]
    return .const (← r.required "value" Json.word?)
  | "pc" =>
    let r ← j.fields? ["value"]
    return .pc (← r.required "value" Json.word?)
  | "temp" =>
    let r ← j.fields? ["id"]
    return .temp (← r.required "id" Json.word32?)
  | "env" =>
    let _ ← j.fields? []
    return .env
  | "data_ref" =>
    let r ← j.fields? ["global", "offset", "address"]
    return .dataRef (← r.required "global" Json.str?) (← r.required "offset" Json.word?)
      (← r.required "address" Json.word?)
  | "function_ref" =>
    let r ← j.fields? ["name", "address"]
    return .functionRef (← r.required "name" Json.str?) (← r.required "address" Json.word?)
  | "import_ref" =>
    let r ← j.fields? ["name", "slot"]
    return .importRef (← r.required "name" Json.str?) (← r.required "slot" Json.word?)
  | _ => none

/-- Read an operand. -/
def ofJson? (j : Json) : Option Operand := j.outermost? "kind" 0 ofNested?

end Operand

namespace BinOp

/-- The name of an operation. -/
def name : BinOp → String
  | .add => "add"
  | .sub => "sub"
  | .mul => "mul"
  | .and => "and"
  | .or => "or"
  | .xor => "xor"
  | .shl => "shl"
  | .shr => "shr"
  | .sar => "sar"
  | .eq => "eq"
  | .ne => "ne"
  | .ult => "ult"
  | .slt => "slt"

/-- The operation with the given name. -/
def ofName? : String → Option BinOp
  | "add" => some .add
  | "sub" => some .sub
  | "mul" => some .mul
  | "and" => some .and
  | "or" => some .or
  | "xor" => some .xor
  | "shl" => some .shl
  | "shr" => some .shr
  | "sar" => some .sar
  | "eq" => some .eq
  | "ne" => some .ne
  | "ult" => some .ult
  | "slt" => some .slt
  | _ => none

/-- Read an operation. -/
def ofJson? (j : Json) : Option BinOp := j.name?.bind ofName?

/-- Read an operation that is part of an instruction. -/
def ofNested? (j : Json) : Option BinOp := j.nestedName?.bind ofName?

end BinOp

namespace Convention

/-- The convention as JSON. -/
def toJson : Convention → Json
  | .sysv64 => .str "sys_v64"
  | .ms64 => .str "ms64"
  | .cdecl => .str "cdecl"

/-- The convention with the given name. -/
def ofName? : String → Option Convention
  | "sys_v64" => some .sysv64
  | "ms64" => some .ms64
  | "cdecl" => some .cdecl
  | _ => none

/-- Read a convention. -/
def ofJson? (j : Json) : Option Convention := j.name?.bind ofName?

/-- Read a convention that is part of an instruction. -/
def ofNested? (j : Json) : Option Convention := j.nestedName?.bind ofName?

end Convention

namespace Callee

/-- The callee as JSON. -/
def toJson : Callee → Json
  | .function name address => .choice "kind" "function"
      [("name", .str name), ("address", .word address)]
  | .imported wrapper name slot => .choice "kind" "import"
      [("wrapper", .str wrapper), ("import", .str name), ("slot", .word slot)]
  | .indirect target => .choice "kind" "indirect" [("target", target.toJson)]

/-- The kinds of callees. -/
def kinds : List String := ["function", "import", "indirect"]

/-- Read a callee that is part of an instruction. -/
def ofNested? (j : Json) : Option Callee := do
  let (kind, j) ← j.tagged? "kind" kinds
  match kind with
  | "function" =>
    let r ← j.fields? ["name", "address"]
    return .function (← r.required "name" Json.str?) (← r.required "address" Json.word?)
  | "import" =>
    let r ← j.fields? ["wrapper", "import", "slot"]
    return .imported (← r.required "wrapper" Json.str?) (← r.required "import" Json.str?)
      (← r.required "slot" Json.word?)
  | "indirect" =>
    let r ← j.fields? ["target"]
    return .indirect (← r.required "target" Operand.ofNested?)
  | _ => none

/-- Read a callee. -/
def ofJson? (j : Json) : Option Callee := j.outermost? "kind" 0 ofNested?

end Callee

namespace Inst

/-- The instruction as JSON. -/
def toJson : Inst → Json
  | .setPc pc => .choice "inst" "set_pc" [("pc", .word pc)]
  | .marker pc => .choice "inst" "instruction_marker" [("pc", .word pc)]
  | .readReg dst reg => .choice "inst" "read_reg" [("dst", .temp dst), ("reg", .str reg)]
  | .writeReg reg value => .choice "inst" "write_reg" [("reg", .str reg), ("value", value.toJson)]
  | .binary dst op lhs rhs => .choice "inst" "binary"
      [("dst", .temp dst), ("op", .str op.name), ("lhs", lhs.toJson), ("rhs", rhs.toJson)]
  | .select dst cond ifTrue ifFalse => .choice "inst" "select"
      [("dst", .temp dst), ("cond", cond.toJson), ("if_true", ifTrue.toJson),
        ("if_false", ifFalse.toJson)]
  | .load dst addr size => .choice "inst" "load"
      [("dst", .temp dst), ("addr", addr.toJson), ("size", .byte size)]
  | .store addr value size => .choice "inst" "store"
      [("addr", addr.toJson), ("value", value.toJson), ("size", .byte size)]
  | .helper dst name args => .choice "inst" "helper"
      [("dst", .opt .temp dst), ("name", .str name), ("args", .list Operand.toJson args)]
  | .halt => .choice "inst" "halt" []
  | .branch target => .choice "inst" "branch" [("target", target.toJson)]
  | .exit => .choice "inst" "exit" []
  | .callMarker target isStatic state => .choice "inst" "call_marker"
      [("target", target.toJson), ("is_static", .bool isStatic), ("state", state.toJson)]
  | .returnMarker target => .choice "inst" "return_marker" [("target", target.toJson)]
  | .jumpMarker target => .choice "inst" "jump_marker" [("target", target.toJson)]
  | .call callee state => .choice "inst" "call"
      [("callee", callee.toJson), ("state", state.toJson)]
  | .importCall name library convention => .choice "inst" "import_call"
      [("import", .str name), ("library", .opt .str library), ("convention", convention.toJson)]
  | .jump label => .choice "inst" "jump" [("label", .str label)]
  | .condJump cond thenLabel elseLabel => .choice "inst" "cond_jump"
      [("cond", cond.toJson), ("then_label", .str thenLabel), ("else_label", .str elseLabel)]
  | .ret => .choice "inst" "return" []

/-- Read an instruction that has been taken over. -/
def ofNested? (j : Json) : Option Inst := do
  let (inst, j) ← j.tagged? "inst" []
  match inst with
  | "set_pc" =>
    let r ← j.fields? ["pc"]
    return .setPc (← r.required "pc" Json.word?)
  | "instruction_marker" =>
    let r ← j.fields? ["pc"]
    return .marker (← r.required "pc" Json.word?)
  | "read_reg" =>
    let r ← j.fields? ["dst", "reg"]
    return .readReg (← r.required "dst" Json.word32?) (← r.required "reg" Json.str?)
  | "write_reg" =>
    let r ← j.fields? ["reg", "value"]
    return .writeReg (← r.required "reg" Json.str?) (← r.required "value" Operand.ofNested?)
  | "binary" =>
    let r ← j.fields? ["dst", "op", "lhs", "rhs"]
    return .binary (← r.required "dst" Json.word32?) (← r.required "op" BinOp.ofNested?)
      (← r.required "lhs" Operand.ofNested?) (← r.required "rhs" Operand.ofNested?)
  | "select" =>
    let r ← j.fields? ["dst", "cond", "if_true", "if_false"]
    return .select (← r.required "dst" Json.word32?) (← r.required "cond" Operand.ofNested?)
      (← r.required "if_true" Operand.ofNested?) (← r.required "if_false" Operand.ofNested?)
  | "load" =>
    let r ← j.fields? ["dst", "addr", "size"]
    return .load (← r.required "dst" Json.word32?) (← r.required "addr" Operand.ofNested?)
      (← r.required "size" Json.byte?)
  | "store" =>
    let r ← j.fields? ["addr", "value", "size"]
    return .store (← r.required "addr" Operand.ofNested?) (← r.required "value" Operand.ofNested?)
      (← r.required "size" Json.byte?)
  | "helper" =>
    let r ← j.fields? ["dst", "name", "args"]
    return .helper (← r.optional "dst" Json.word32?) (← r.required "name" Json.str?)
      (← r.required "args" (Json.list? Operand.ofNested?))
  | "halt" =>
    let _ ← j.fields? []
    return .halt
  | "branch" =>
    let r ← j.fields? ["target"]
    return .branch (← r.required "target" Operand.ofNested?)
  | "exit" =>
    let _ ← j.fields? []
    return .exit
  | "call_marker" =>
    let r ← j.fields? ["target", "is_static", "state"]
    return .callMarker (← r.required "target" Operand.ofNested?) (← r.required "is_static" Json.bool?)
      (← r.required "state" Operand.ofNested?)
  | "return_marker" =>
    let r ← j.fields? ["target"]
    return .returnMarker (← r.required "target" Operand.ofNested?)
  | "jump_marker" =>
    let r ← j.fields? ["target"]
    return .jumpMarker (← r.required "target" Operand.ofNested?)
  | "call" =>
    let r ← j.fields? ["callee", "state"]
    return .call (← r.required "callee" Callee.ofNested?) (← r.required "state" Operand.ofNested?)
  | "import_call" =>
    let r ← j.fields? ["import", "library", "convention"]
    return .importCall (← r.required "import" Json.str?) (← r.optional "library" Json.str?)
      (← r.required "convention" Convention.ofNested?)
  | "jump" =>
    let r ← j.fields? ["label"]
    return .jump (← r.required "label" Json.str?)
  | "cond_jump" =>
    let r ← j.fields? ["cond", "then_label", "else_label"]
    return .condJump (← r.required "cond" Operand.ofNested?) (← r.required "then_label" Json.str?)
      (← r.required "else_label" Json.str?)
  | "return" =>
    let _ ← j.fields? []
    return .ret
  | _ => none

/-- Read an instruction with `outer` values around it. -/
def ofJsonIn? (outer : Nat) (j : Json) : Option Inst := j.outermost? "inst" outer ofNested?

/-- Read an instruction. -/
def ofJson? (j : Json) : Option Inst := ofJsonIn? 0 j

end Inst

namespace Body

/-- The body as JSON. -/
def toJson (b : Body) : Json :=
  .obj [("insts", .list Inst.toJson b.insts), ("next_temp", .temp b.nextTemp)]

/-- Read a body. -/
def ofJson? (j : Json) : Option Body := do
  let r ← j.fields? ["insts", "next_temp"]
  return { insts := ← r.required "insts" (Json.list? (Inst.ofJsonIn? 2))
           nextTemp := ← r.required "next_temp" Json.word32? }

end Body

namespace CodeBlock

/-- The labelled code as JSON. -/
def toJson (b : CodeBlock) : Json :=
  .obj [("label", .str b.label), ("insts", .list Inst.toJson b.insts)]

/-- Read labelled code with `outer` values around it. -/
def ofJsonIn? (outer : Nat) (j : Json) : Option CodeBlock := do
  let r ← j.fields? ["label", "insts"]
  return { label := ← r.required "label" Json.str?
           insts := ← r.required "insts" (Json.list? (Inst.ofJsonIn? (outer + 2))) }

end CodeBlock

namespace Func

/-- The function as JSON. -/
def toJson (f : Func) : Json :=
  .obj [("name", .str f.name), ("address", .word f.address),
    ("blocks", .list CodeBlock.toJson f.blocks), ("next_temp", .temp f.nextTemp)]

/-- Read a function with `outer` values around it. -/
def ofJsonIn? (outer : Nat) (j : Json) : Option Func := do
  let r ← j.fields? ["name", "address", "blocks", "next_temp"]
  return { name := ← r.required "name" Json.str?
           address := ← r.required "address" Json.word?
           blocks := ← r.required "blocks" (Json.list? (CodeBlock.ofJsonIn? (outer + 2)))
           nextTemp := ← r.required "next_temp" Json.word32? }

/-- Read a function. -/
def ofJson? (j : Json) : Option Func := ofJsonIn? 0 j

end Func

namespace GlobalData

/-- The data of a section as JSON. -/
def toJson (g : GlobalData) : Json :=
  let init := match g.init with
    | none => []
    | some bytes => [("init", Json.list Json.byte bytes.toList)]
  .obj ([("name", .str g.name), ("section", .str g.sect), ("address", .word g.address),
    ("size", .word g.size)] ++ init)

/-- Read the data of a section. -/
def ofJson? (j : Json) : Option GlobalData := do
  let r ← j.fields? ["name", "section", "address", "size", "init"]
  return { name := ← r.required "name" Json.str?
           sect := ← r.required "section" Json.str?
           address := ← r.required "address" Json.word?
           size := ← r.required "size" Json.word?
           init := (← r.optionalAnywhere "init" (Json.list? Json.byte?)).map List.toArray }

end GlobalData

namespace Module

/-- The module as JSON. -/
def toJson (m : Module) : Json :=
  .obj [("name", .str m.name), ("globals", .list GlobalData.toJson m.globals),
    ("functions", .list Func.toJson m.functions), ("wrappers", .list Func.toJson m.wrappers)]

/-- Read a module. -/
def ofJson? (j : Json) : Option Module := do
  let r ← j.fields? ["name", "globals", "functions", "wrappers"]
  return { name := ← r.required "name" Json.str?
           globals := ← r.required "globals" (Json.list? GlobalData.ofJson?)
           functions := ← r.required "functions" (Json.list? (Func.ofJsonIn? 2))
           wrappers := ← r.required "wrappers" (Json.list? (Func.ofJsonIn? 2)) }

/-- The text of a module, over several lines. -/
def pretty (m : Module) : String := m.toJson.pretty

/-- Read the text of a module. -/
def parse? (text : String) : Option Module := (Json.parse? text).bind ofJson?

end Module

end FlowRecovery
