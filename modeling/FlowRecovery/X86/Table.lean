/-
The findings of a disassembler as a table.

The table lists every instruction under its address; where it lists none, nothing
can be decoded.
-/
import FlowRecovery.AddrMap
import FlowRecovery.Json.Record
import FlowRecovery.X86.Insn

namespace FlowRecovery.X86

/-- Read an argument of an instruction. -/
def Arg.ofJson? (j : Json) : Option Arg := do
  let (type, j) ← j.tagged? "type" []
  let r ← j.fields? ["size", "reg", "imm", "base", "index", "scale", "disp"]
  let size ← r.required "size" Json.byte?
  match type with
  | "reg" => return { place := .reg (← r.optional "reg" Json.str?), size }
  | "imm" => return { place := .imm (← r.required "imm" Json.int64?), size }
  | "mem" =>
    return { place := .mem (← r.optional "base" Json.str?) (← r.optional "index" Json.str?)
               (← r.required "scale" Json.int64?).toUInt64 (← r.required "disp" Json.int64?)
             size }
  | _ => none

/-- Read an instruction and its address. -/
def Insn.ofJson? (j : Json) : Option (Addr × Insn) := do
  let r ← j.fields? ["address", "size", "mnemonic", "groups", "ops"]
  let groups ← r.withDefault "groups" [] (Json.list? Json.str?)
  let insn : Insn :=
    { size := ← r.required "size" Json.word?, mnemonic := ← r.required "mnemonic" Json.str?
      returns := groups.contains "ret", calls := groups.contains "call"
      jumps := groups.contains "jump"
      args := ← r.withDefault "ops" [] (Json.list? Arg.ofJson?) }
  return (← r.required "address" Json.word?, insn)

/-- Read a table; of two instructions under one address the later one counts. -/
def Decoder.ofJson? (j : Json) : Option Decoder := do
  let table ← j.list? Insn.ofJson?
  let map : AddrMap Insn := table.foldl (fun t e => t.insert e.1 e.2) ∅
  return map.get?

end FlowRecovery.X86
