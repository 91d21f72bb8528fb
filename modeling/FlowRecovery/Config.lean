/-
The tunables of a run.

Every field has a default, so a file may give any part of them.
-/
import FlowRecovery.Image.Codec
import FlowRecovery.X86.Lifter

namespace FlowRecovery

/-- The tunables of a run. -/
structure Config where
  version : String := "0.1.0"
  /-- Whether numbers in the code are taken for code addresses. -/
  extractAddresses : Bool := true
  minStringLength : Word := 2
  /-- The limit on the instructions of a unit. -/
  maxBlockInstructions : Word := UInt64.ofNat X86.defaultLimit
  entryName : String := "entry_point"
  functionPrefix : String := "function"
  /-- The architecture to decode for, whatever the headers say. -/
  arch : Option Arch := none
  jumpTableDetection : Bool := true
  deriving DecidableEq, Repr, Inhabited

/-- Why a configuration could not be used. -/
inductive ConfigError where
  | io (path reason : String)
  | json
  | yaml
  | unsupportedExtension (path : String)
  | unsupportedVersion (found : String)
  | blockLimit (value : Word)
  deriving DecidableEq, Repr

/-- The text of the error; a text that does not parse is not described further. -/
def ConfigError.message : ConfigError → String
  | .io path reason => "Failed to read config at " ++ path ++ ": " ++ reason
  | .json => "Failed to parse JSON config: "
  | .yaml => "Failed to parse YAML config: "
  | .unsupportedExtension path => "Unsupported config extension for " ++ path
  | .unsupportedVersion found => "Unsupported config version " ++ found ++ "; expected 0.1.0"
  | .blockLimit value =>
    "max_block_instructions must be between 1 and 4096, got " ++ Text.decimal value.toNat

namespace Config

/-- The fields of a configuration in the order in which they are written. -/
def fieldNames : List String :=
  ["config_version", "extract_addresses", "min_string_len", "max_block_instructions",
    "entry_name", "function_prefix", "arch", "jump_table_detection"]

/-- The configuration as JSON; a missing architecture is left out. -/
def toJson (c : Config) : Json :=
  let arch := match c.arch with
    | none => []
    | some arch => [("arch", Json.str arch.name)]
  .obj ([("config_version", .str c.version), ("extract_addresses", .bool c.extractAddresses),
    ("min_string_len", .word c.minStringLength),
    ("max_block_instructions", .word c.maxBlockInstructions),
    ("entry_name", .str c.entryName), ("function_prefix", .str c.functionPrefix)]
    ++ arch ++ [("jump_table_detection", .bool c.jumpTableDetection)])

/-- Read a configuration; what is not given takes its default. -/
def ofJson? (j : Json) : Option Config := do
  let r ← j.fields? fieldNames
  let d : Config := {}
  return { version := ← r.withDefault "config_version" d.version Json.str?
           extractAddresses := ← r.withDefault "extract_addresses" d.extractAddresses Json.bool?
           minStringLength := ← r.withDefault "min_string_len" d.minStringLength Json.word?
           maxBlockInstructions :=
             ← r.withDefault "max_block_instructions" d.maxBlockInstructions Json.word?
           entryName := ← r.withDefault "entry_name" d.entryName Json.str?
           functionPrefix := ← r.withDefault "function_prefix" d.functionPrefix Json.str?
           arch := ← r.optionalAnywhere "arch" Arch.ofJson?
           jumpTableDetection :=
             ← r.withDefault "jump_table_detection" d.jumpTableDetection Json.bool? }

/-- Check the version, then the limit. -/
def validate (c : Config) : Except ConfigError Unit :=
  if c.version ≠ "0.1.0" then .error (.unsupportedVersion c.version)
  else if c.maxBlockInstructions = 0 ∨ X86.maxLimit < c.maxBlockInstructions.toNat then
    .error (.blockLimit c.maxBlockInstructions)
  else .ok ()

end Config

end FlowRecovery
