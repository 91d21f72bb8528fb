/-
Reading configurations from files.

The text of a file is read as JSON or as YAML, as the extension of its name
says.  A YAML document without content stands for the defaults.
-/
import FlowRecovery.Binary
import FlowRecovery.Config
import FlowRecovery.Path
import FlowRecovery.Text.Blank
import FlowRecovery.Yaml.Document

namespace FlowRecovery.Config

/-- A field that takes the default when it is left out, and may not be given twice. -/
def yamlField {α : Type} (given : List (String × Yaml.Node)) (name : String) (default : α)
    (read : Yaml.Node → Option α) : Option α :=
  match given.filter (·.1 == name) with
  | [] => some default
  | [(_, value)] => read value
  | _ => none

/-- The fields that a document gives by name. -/
def yamlFields? (d : Yaml.Document) : Option (List (String × Yaml.Node)) :=
  match d.root with
  | none => some []
  | some (.scalar _ "" .plain) => some []
  | some (.mapping _ entries) => entries.mapM fun e => do
    return (← (← d.follow? e.1).text?, ← d.follow? e.2)
  | _ => none

/-- Read a configuration; what is not given takes its default. -/
def ofYaml? (document : Yaml.Document) : Option Config := do
  let given ← yamlFields? document
  let d : Config := {}
  let text := Yaml.Node.text?
  let bool := Yaml.Node.bool?
  let word := Yaml.Node.word?
  let arch := Yaml.Node.optional? fun n => n.name?.bind Arch.ofName?
  return { version := ← yamlField given "config_version" d.version text
           extractAddresses := ← yamlField given "extract_addresses" d.extractAddresses bool
           minStringLength := ← yamlField given "min_string_len" d.minStringLength word
           maxBlockInstructions :=
             ← yamlField given "max_block_instructions" d.maxBlockInstructions word
           entryName := ← yamlField given "entry_name" d.entryName text
           functionPrefix := ← yamlField given "function_prefix" d.functionPrefix text
           arch := ← yamlField given "arch" d.arch arch
           jumpTableDetection :=
             ← yamlField given "jump_table_detection" d.jumpTableDetection bool }

/-- The configuration that a YAML text stands for. -/
def ofYamlText? (text : String) : Option Config :=
  if (Text.trim text.toList).isEmpty then some {} else (Yaml.Document.parse? text).bind ofYaml?

/-- The configuration in a file with the given name and text, unchecked. -/
def ofText (path text : String) : Except ConfigError Config :=
  match (Path.extension? path).map Text.lowerAscii with
  | some "json" => ((Json.parse? text).bind ofJson?).elim (.error .json) .ok
  | some "yaml" | some "yml" => (ofYamlText? text).elim (.error .yaml) .ok
  | _ => .error (.unsupportedExtension path)

/-- The configuration in a file with the given name and contents. -/
def load (path : String) (contents : Bytes) : Except ConfigError Config := do
  match Binary.text? contents.toList with
  | none => .error (.io path "stream did not contain valid UTF-8")
  | some text =>
    let config ← ofText path text
    config.validate
    return config

end FlowRecovery.Config
