/-
The command line.

The first word that is no option names the command; what follows are its options
and operands, in any order.  An option is given by its full name behind two
dashes, its value as the next word or behind an equals sign.  Behind a double
dash every word is an operand.  Only `--entrypoint` may be given more than once.
-/
import FlowRecovery.Text.Digits

namespace FlowRecovery.Command

/-- The options and the operand of a run. -/
structure RecoveryArgs where
  input : String
  outputDir : String := "."
  entryPoints : List String := []
  noDefaultEntry : Bool := false
  /-- Whether the results go to a fresh numbered directory. -/
  experiment : Bool := false
  config : Option String := none
  db : Option String := none
  arch : Option String := none
  maxBlockInstructions : Option Word := none
  json : Bool := false
  deriving DecidableEq, Repr, Inhabited

/-- A command with its arguments. -/
inductive Invocation where
  | recover (args : RecoveryArgs)
  | inspect (input : String) (json : Bool)
  | runs (db : String) (binary : Option String) (json : Bool)
  | showRun (db binary : String) (json : Bool)
  deriving DecidableEq, Repr

/-- A command, and whether its steps are reported. -/
structure CommandLine where
  verbose : Bool
  invocation : Invocation
  deriving DecidableEq, Repr

/-- Why there is no command to carry out. -/
inductive ArgStop where
  | help
  | version
  /-- The words make no command, for the given reason. -/
  | usage (reason : String)
  deriving DecidableEq, Repr

/-- An option of a command. -/
structure OptionSpec where
  name : String
  takesValue : Bool := false
  repeatable : Bool := false

/-- The options of a command, and how many operands it takes. -/
structure CommandSpec where
  options : List OptionSpec
  operands : Nat := 0

/-- What words give. -/
structure Given where
  flags : List String := []
  values : List (String × String) := []
  operands : List String := []
  deriving Repr

namespace Given

/-- Whether the option was given. -/
def has (g : Given) (name : String) : Bool :=
  g.flags.contains name || g.values.any (·.1 == name)

/-- The value of an option. -/
def value? (g : Given) (name : String) : Option String := g.values.lookup name

/-- The values of an option, in order. -/
def all (g : Given) (name : String) : List String :=
  (g.values.filter (·.1 == name)).map (·.2)

end Given

/-- Whether a word is an option rather than a value. -/
def isOption (word : String) : Bool := word.startsWith "-" && word != "-"

/-- Refuse the words. -/
def refuse {α : Type} (reason : String) : Except ArgStop α := .error (.usage reason)

/-- A further operand. -/
def addOperand (spec : CommandSpec) (g : Given) (word : String) : Except ArgStop Given :=
  if g.operands.length < spec.operands then .ok { g with operands := g.operands ++ [word] }
  else refuse ("unexpected argument '" ++ word ++ "' found")

/-- A further flag. -/
def addFlag (g : Given) (name : String) : Except ArgStop Given :=
  if g.has name then refuse ("the argument '--" ++ name ++ "' cannot be used multiple times")
  else .ok { g with flags := g.flags ++ [name] }

/-- A further value of an option. -/
def addValue (spec : OptionSpec) (g : Given) (value : String) : Except ArgStop Given :=
  if g.has spec.name && !spec.repeatable then
    refuse ("the argument '--" ++ spec.name ++ "' cannot be used multiple times")
  else if spec.name == "max-block-instructions"
      && (Text.readWord? 10 value.toList).isNone then
    refuse ("invalid value '" ++ value ++ "' for '--" ++ spec.name ++ "'")
  else .ok { g with values := g.values ++ [(spec.name, value)] }

/-- Options of one letter, several of which may stand behind one dash. -/
def addLetters (top : Bool) (g : Given) : List Char → Except ArgStop Given
  | [] => .ok g
  | 'v' :: cs => do addLetters top (← addFlag g "verbose") cs
  | 'h' :: _ => .error .help
  | c :: cs =>
    if top && c == 'V' then .error .version
    else refuse ("unexpected argument '-" ++ String.ofList (c :: cs) ++ "' found")

/-- Split a word behind its dashes into the name of an option and a value. -/
def splitValue (word : List Char) : String × Option String :=
  match word.dropWhile (· != '=') with
  | [] => (String.ofList word, none)
  | _ :: value => (String.ofList (word.takeWhile (· != '=')), some (String.ofList value))

/-- Read one word: it is complete, or an option that waits for its value. -/
def readWord (spec : CommandSpec) (g : Given) (word : String) :
    Except ArgStop (Given ⊕ OptionSpec) := do
  if word.startsWith "--" then
    let (name, value) := splitValue (word.toList.drop 2)
    match name, value, spec.options.find? (·.name == name) with
    | "help", none, _ => .error .help
    | _, _, none => refuse ("unexpected argument '--" ++ name ++ "' found")
    | _, none, some option =>
      if option.takesValue then return .inr option else return .inl (← addFlag g name)
    | _, some value, some option =>
      if option.takesValue then return .inl (← addValue option g value)
      else refuse ("unexpected value '" ++ value ++ "' for '--" ++ name ++ "' found")
  else if isOption word then return .inl (← addLetters false g (word.toList.drop 1))
  else return .inl (← addOperand spec g word)

/-- Read the words behind the name of a command. -/
def readWords (spec : CommandSpec) (g : Given) : List String → Except ArgStop Given
  | [] => .ok g
  | "--" :: rest => rest.foldlM (addOperand spec) g
  | word :: rest => do
    match ← readWord spec g word, rest with
    | .inl g, rest => readWords spec g rest
    | .inr option, [] => refuse ("a value is required for '--" ++ option.name ++ "'")
    | .inr option, value :: rest =>
      if isOption value then refuse ("a value is required for '--" ++ option.name ++ "'")
      else readWords spec (← addValue option g value) rest

/-- An option that every command takes. -/
def verbose : OptionSpec := { name := "verbose" }

/-- An option that asks for JSON. -/
def json : OptionSpec := { name := "json" }

/-- The options and operands of each command. -/
def spec? : String → Option CommandSpec
  | "translate" => some
    { options :=
        [{ name := "output-dir", takesValue := true },
          { name := "entrypoint", takesValue := true, repeatable := true },
          { name := "no-default-entry" }, { name := "exp-mode" },
          { name := "config", takesValue := true }, { name := "db", takesValue := true },
          { name := "arch", takesValue := true },
          { name := "max-block-instructions", takesValue := true }, json, verbose]
      operands := 1 }
  | "inspect" => some { options := [json, verbose], operands := 1 }
  | "runs" | "show-run" => some
    { options := [{ name := "db", takesValue := true }, { name := "binary", takesValue := true },
        json, verbose] }
  | _ => none

/-- The value of an option that has to be given. -/
def required (g : Given) (name : String) : Except ArgStop String :=
  match g.value? name with
  | some value => .ok value
  | none => refuse ("the following required arguments were not provided: --" ++ name)

/-- The operand that has to be given. -/
def operand (g : Given) : Except ArgStop String :=
  match g.operands.head? with
  | some word => .ok word
  | none => refuse "the following required arguments were not provided: <INPUT>"

/-- The command that words give. -/
def invocation (name : String) (g : Given) : Except ArgStop Invocation := do
  let json := g.has "json"
  match name with
  | "translate" =>
    return .recover
      { input := ← operand g, outputDir := (g.value? "output-dir").getD "."
        entryPoints := g.all "entrypoint", noDefaultEntry := g.has "no-default-entry"
        experiment := g.has "exp-mode", config := g.value? "config", db := g.value? "db"
        arch := g.value? "arch"
        maxBlockInstructions :=
          (g.value? "max-block-instructions").bind fun v => Text.readWord? 10 v.toList
        json }
  | "inspect" => return .inspect (← operand g) json
  | "runs" => return .runs (← required g "db") (g.value? "binary") json
  | _ => return .showRun (← required g "db") (← required g "binary") json

/-- The commands by their names. -/
def commandNames : List String := ["translate", "inspect", "runs", "show-run", "help"]

/-- Read the words behind `help`: at most the name of one command. -/
def readTopic : List String → ArgStop
  | [] => .help
  | word :: rest =>
    if commandNames.contains word then
      match rest with
      | [] => .help
      | extra :: _ => .usage ("unrecognized subcommand '" ++ extra ++ "'")
    else .usage ("unrecognized subcommand '" ++ word ++ "'")

/-- Read a command line. -/
def readLine (g : Given) : List String → Except ArgStop CommandLine
  | [] => refuse "'binlift' requires a subcommand but one was not provided"
  | word :: rest => do
    if word == "--help" then .error .help
    else if word == "help" then .error (readTopic rest)
    else if word == "--version" then .error .version
    else if word == "--verbose" then readLine (← addFlag g "verbose") rest
    else if word.startsWith "--" then refuse ("unexpected argument '" ++ word ++ "' found")
    else if isOption word then readLine (← addLetters true g (word.toList.drop 1)) rest
    else
      match spec? word with
      | some spec =>
        let given ← readWords spec {} rest
        return { verbose := g.has "verbose" || given.has "verbose"
                 invocation := ← invocation word given }
      | none => refuse ("unrecognized subcommand '" ++ word ++ "'")

end FlowRecovery.Command
