import AttributeRegistry.Command.Arguments
import AttributeRegistry.Settings.Load
import AttributeRegistry.Storage

/-!
# Outcomes of commands

A command is a function on the files it works on. It ends with an exit code and what it wrote to its
two outputs; an error ends it early, with what it was doing in front of what went wrong.
-/

namespace AttributeRegistry.Command

/-- How diagnostics and reports are written. -/
inductive OutputFormat where
  | text | json
deriving DecidableEq, Repr

/-- How a command ends. -/
structure Outcome where
  code : Nat
  output : String
  errors : String
deriving DecidableEq, Repr

/-- Why a command ends early: what it was doing, from the outside in, and what went wrong. -/
structure Failure where
  reasons : List String

namespace Failure

/-- A failure in plain words. -/
def plain (reason : String) : Failure :=
  ⟨[reason]⟩

/-- The failure an error is. -/
def ofError (e : Error) : Failure :=
  ⟨e.message :: e.cause?.toList⟩

/-- A failure while something was done. -/
def during (doing : String) (f : Failure) : Failure :=
  ⟨doing :: f.reasons⟩

/-- The wording of a failure. -/
def message (f : Failure) : String :=
  String.intercalate ": " f.reasons

end Failure

/-- A result that fails while something is done. -/
def doing {α : Type} (what : String) (x : Except Failure α) : Except Failure α :=
  x.mapError (Failure.during what)

/-- A result whose errors are failures. -/
def orFail {α : Type} (x : Except Error α) : Except Failure α :=
  x.mapError Failure.ofError

/-- The settings a command works with, from what loading them came to. -/
def loaded (r : Except String Settings) : Except Failure Settings :=
  doing "loading configuration" (r.mapError .plain)

/-- The settings a command works with. -/
def loadSettings (w : Workspace) (a : Arguments) : Except Failure Settings :=
  loaded (w.loadSettings (a.last? "config"))

/-- The targets of some names. -/
def parseTargets (names : List String) : Except Error (List Target) :=
  names.mapM fun name =>
    match Target.parse name with
    | some t => .ok t
    | none => .error (.unknownTarget name)

/-- The options all commands on sources have. -/
def sourceOptions : List OptionSpec :=
  [.text "config" 'c', (.path "source" 's' : OptionSpec).many, (.text "target" 't' : OptionSpec).many,
    .word "format" 'f' ["text", "json"]]

/-- The format that is asked for. -/
def outputFormat (a : Arguments) : OutputFormat :=
  if a.last? "format" = some "json" then .json else .text

/-- Settings with the sources and targets that are asked for. -/
def withSources (s : Settings) (a : Arguments) : Except Failure Settings := do
  let s := if a.has "source" then
    { s with source := { s.source with sources := a.all "source" } } else s
  if a.has "target" then
    return { s with output := { s.output with targets := ← orFail (parseTargets (a.parts "target")) } }
  else return s

/-- The run for the sources of some settings. -/
def runSources (r : Request) (w : Workspace) (s : Settings) : Except Error Run :=
  r.runFiles w.files s.source.skipped s.source.sources

/-- The end of a command whose arguments do not fit. -/
def misused (message : String) : Outcome :=
  ⟨2, "", "error: " ++ message ++ "\n"⟩

/-- The end of a command that does not take its arguments. Help is no error. -/
def refused (specs : ArgumentSpecs) : Arguments.Refusal → Outcome
  | .help => ⟨0, specs.about ++ "\n\nUsage: " ++ specs.usage ++ "\n", ""⟩
  | .misuse message => misused message

end AttributeRegistry.Command
