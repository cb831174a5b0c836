import AttributeRegistry.Command.Outcome

/-!
# The command about settings

Shows the settings in effect, writes a file with the default ones, or checks them.
-/

namespace AttributeRegistry.Command.Configure

/-- The options in front of a subcommand. -/
def specs : ArgumentSpecs :=
  { about := "Inspect and initialize registry configuration"
    usage := "semconv-config [OPTIONS] <COMMAND>"
    options := [.text "config" 'c']
    positional := 0
    subcommands := true }

/-- What the subcommand that writes a file may be given. -/
def createSpecs : ArgumentSpecs :=
  { about := "Write a default configuration file"
    usage := "semconv-config init [OPTIONS] [PATH]"
    options := [.flag "force"]
    positional := 1
    subcommands := false }

/-- What a subcommand without options may be given. -/
def plainSpecs (name about : String) : ArgumentSpecs :=
  { about
    usage := "semconv-config " ++ name
    options := []
    positional := 0
    subcommands := false }

/-- What the subcommand that shows the settings may be given. -/
def displaySpecs : ArgumentSpecs :=
  plainSpecs "show" "Print the effective configuration as TOML"

/-- What the subcommand that checks the settings may be given. -/
def checkSpecs : ArgumentSpecs :=
  plainSpecs "validate" "Check the effective configuration"

/-- What the subcommand about the others may be given, which reads its arguments by itself. -/
def helpSpecs : ArgumentSpecs :=
  plainSpecs "help [COMMAND]..." "Print this message or the help of the given subcommand(s)"

/-- The subcommands. -/
def subcommands : List (String × ArgumentSpecs) :=
  [("show", displaySpecs), ("init", createSpecs), ("validate", checkSpecs), ("help", helpSpecs)]

/-- The file settings are written to unless another one is given. -/
def settingsFile : String :=
  "semconv.toml"

/-- The end after a failure. -/
def failed (f : Failure) : Outcome :=
  ⟨1, "", "Error: " ++ f.message ++ "\n"⟩

/-- Shows the settings in effect. -/
def display (w : Workspace) (a : Arguments) : Outcome :=
  match loadSettings w a with
  | .ok s => ⟨0, s.toText, ""⟩
  | .error f => failed f

/-- Writes the default settings; a file that is there already is kept unless `force` is given. -/
def create (w : Workspace) (a : Arguments) (path : String) : FileTree × Outcome :=
  if w.files.exists? path && !a.has "force" then
    (w.files, failed (.plain (path ++ " already exists (use --force to overwrite)")))
  else
    match w.files.write path Settings.default.toText with
    | .ok files => (files, ⟨0, "✅ Wrote " ++ path ++ "\n", ""⟩)
    | .error fault =>
      (w.files, failed (.during ("writing " ++ path) (.plain fault.message)))

/-- The sources that are not there. -/
def missingSources (w : Workspace) (s : Settings) : List String :=
  (s.source.sources.filter fun path => !w.files.exists? path).map fun path =>
    "registry source " ++ path ++ " does not exist"

/-- Checks the settings in effect. -/
def check (w : Workspace) (a : Arguments) : Outcome :=
  match loadSettings w a with
  | .error f => failed f
  | .ok s =>
    match s.problems ++ missingSources w s with
    | [] => ⟨0, "✅ Configuration is valid\n", ""⟩
    | problems => ⟨1, String.join (problems.map fun p => "  ❌ " ++ p ++ "\n"), ""⟩

/-- Runs what the arguments of a subcommand are for, if they fit. -/
def withArguments (w : Workspace) (specs : ArgumentSpecs) (arguments : List String)
    (body : Arguments → FileTree × Outcome) : FileTree × Outcome :=
  match Arguments.parse specs arguments with
  | .error refusal => (w.files, refused specs refusal)
  | .ok a => body a

/-- The end of a command with a subcommand it does not have. -/
def unrecognized (name : String) : Outcome :=
  misused ("unrecognized subcommand '" ++ name ++ "'")

/-- The help about the command, or about a subcommand. -/
def explain : List String → Outcome
  | [] => refused specs .help
  | name :: rest =>
    match subcommands.lookup name, rest with
    | some specs, [] => refused specs .help
    | some _, next :: _ => unrecognized next
    | none, _ => unrecognized name

/-- Runs the command. -/
def run (w : Workspace) (arguments : List String) : FileTree × Outcome :=
  withArguments w specs arguments fun a =>
    match a.positional with
    | "show" :: rest => withArguments w displaySpecs rest fun _ => (w.files, display w a)
    | "validate" :: rest => withArguments w checkSpecs rest fun _ => (w.files, check w a)
    | "init" :: rest => withArguments w createSpecs rest fun b =>
        create w b (b.positional.head?.getD settingsFile)
    | "help" :: rest => (w.files, explain rest)
    | name :: _ => (w.files, unrecognized name)
    | [] => (w.files, misused "expected one of the subcommands show, init and validate")

end AttributeRegistry.Command.Configure
