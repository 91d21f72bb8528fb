/-
Failures of commands: what went wrong, from the outermost account of it to the
innermost cause, and what was logged on the way.
-/
import FlowRecovery.Config
import FlowRecovery.History
import FlowRecovery.Host

namespace FlowRecovery

/-- Why a command failed. -/
structure Failure where
  /-- What went wrong, and why, from the outermost account inwards. -/
  causes : List String
  /-- What was logged before. -/
  log : List String := []
  deriving DecidableEq, Repr

/-- The reasons behind an error, from the outermost inwards. -/
def ConfigError.causes : ConfigError → List String
  | .io path reason => [(ConfigError.io path reason).message, reason]
  | .json => [ConfigError.json.message, "malformed JSON"]
  | .yaml => [ConfigError.yaml.message, "malformed YAML"]
  | e => [e.message]

/-- The reasons behind an error, from the outermost inwards. -/
def HistoryError.causes : HistoryError → List String
  | .store => [HistoryError.store.message, "the tables are not usable"]
  | e => [e.message]

/-- A command that may fail, or overflow, on a machine. -/
abbrev Action (m : Type → Type) := ExceptT (Stop Failure) m

namespace Action

variable {m : Type → Type} [Monad m] {ε α : Type}

/-- Fail for the given reasons. -/
def fail (causes : List String) : Action m α := throw (.refused { causes })

/-- A computation that needs no machine. -/
def lift (x : Checked Failure α) : Action m α := ExceptT.mk (pure x)

/-- Fail with an account of what was tried, if it was refused. -/
def orFail (account : String) (causes : ε → List String) (x : Except ε α) : Action m α :=
  match x with
  | .ok a => pure a
  | .error e => fail (account :: causes e)

/-- Fail with an account of what was tried, if the files refused it. -/
def file (account : String) (x : m (Except FileError α)) : Action m α := do
  orFail account (fun e => [e.message]) (← x)

/-- A computation that may overflow, with an account of what was tried. -/
def checked (account : String) (causes : ε → List String) (x : Checked ε α) : Action m α :=
  match x with
  | .ok a => pure a
  | .error .overflow => throw .overflow
  | .error (.refused e) => fail (account :: causes e)

/-- Log a line before going on. -/
def logged (line : String) (x : Action m α) : Action m α :=
  ExceptT.adapt (Stop.map fun f => { f with log := line :: f.log }) x

end Action

/-- The lines of a text behind the first, indented. -/
def indentFurther (width : Nat) (text : String) : List String :=
  match text.splitOn "\n" with
  | [] => []
  | first :: rest => first :: rest.map fun l => String.ofList (List.replicate width ' ') ++ l

/-- The lines that report a failure: the account first, then the causes, which are
numbered if there are several. -/
def Failure.report (f : Failure) : List String :=
  match f.causes with
  | [] => ["Error: "]
  | [account] => ("Error: " ++ account).splitOn "\n"
  | [account, cause] =>
    ("Error: " ++ account).splitOn "\n" ++ ["", "Caused by:"]
      ++ (indentFurther 4 ("    " ++ cause))
  | account :: causes =>
    ("Error: " ++ account).splitOn "\n" ++ ["", "Caused by:"]
      ++ causes.zipIdx.flatMap fun (cause, i) =>
        let number := Text.decimal i
        let blanks := String.ofList (List.replicate (5 - number.length) ' ')
        indentFurther 7 (blanks ++ number ++ ": " ++ cause)

end FlowRecovery
