import AttributeRegistry.Command.Outcome

/-!
# The command that generates

Generates the modules of a registry and writes them with their manifest. Nothing is written unless
the registry is valid.
-/

namespace AttributeRegistry.Command.Generate

/-- The options. -/
def specs : ArgumentSpecs :=
  { about := "Validate registry documents and generate attribute constants"
    usage := "semconv-generate [OPTIONS]"
    options := sourceOptions ++ [.path "output" 'o', .text "registry-version" none, .flag "dry-run",
      .flag "warnings-as-errors"]
    positional := 0
    subcommands := false }

/-- Settings with what is asked for. -/
def settings (s : Settings) (a : Arguments) : Except Failure Settings := do
  let s ← withSources s a
  let directory := (a.last? "output").getD s.output.directory
  return { s with
    output := { s.output with directory }
    strict := s.strict || a.has "warnings-as-errors" }

/-- What is asked of the run. -/
def request (s : Settings) (a : Arguments) : Except Failure Request := do
  if !s.problems.isEmpty then
    throw (.plain ("invalid configuration: " ++ String.intercalate "; " s.problems))
  let r ← orFail s.request
  match a.last? "registry-version" with
  | none => return r
  | some raw =>
    match Version.parse raw with
    | .ok v => return { r with version := some v }
    | .error e => throw (.during "parsing --registry-version" (.plain e.message))

/-- Findings as they are written, to the output and to the errors. -/
def written (format : OutputFormat) (r : Report) : String × String :=
  match format with
  | .json => (r.toJson.toIndentedText ++ "\n", "")
  | .text => ("", r.format)

/-- The findings of a run without errors, and the line about its registry. -/
def summary (format : OutputFormat) (run : Run) : String × String :=
  let registry := run.registry.registry
  let (output, errors) :=
    if run.registry.warnings.isEmpty then ("", "") else written format run.registry.warnings
  (output ++ "📦 Registry " ++ registry.version.text ++ " - " ++ toString registry.size
    ++ " attributes, checksum " ++ registry.checksum.short ++ "\n", errors)

/-- The lines about modules that are not written. -/
def dryLines (run : Run) : String :=
  String.join (run.artifacts.items.map fun i =>
    "   " ++ i.target.name ++ " -> " ++ i.fileName ++ " (" ++ i.checksum.short ++ ")\n")
  ++ "\n✅ Dry run - no files written\n"

/-- The lines about what was written. -/
def writtenLines (run : Run) (paths : List String) : String :=
  String.join (paths.map fun path => "   wrote " ++ path ++ "\n")
  ++ "\n✅ Generated " ++ toString run.artifacts.items.length ++ " artifact(s)\n"

/-- The end after a failure, with what was written before. -/
def failed (output errors : String) (f : Failure) : Outcome :=
  ⟨1, output, errors ++ "❌ Error: " ++ f.message ++ "\n"⟩

/-- What is done with a valid registry. -/
def deliver (w : Workspace) (a : Arguments) (s : Settings) (run : Run) : FileTree × Outcome :=
  let (output, errors) := summary (outputFormat a) run
  if a.has "dry-run" then (w.files, ⟨0, output ++ dryLines run, errors⟩)
  else
    let directory := s.output.directory
    match run.artifacts.writeTo directory w.files with
    | (files, .ok paths) => (files, ⟨0, output ++ writtenLines run paths, errors⟩)
    | (files, .error e) =>
      (files, failed output errors (.during ("writing to " ++ directory) (.ofError e)))

/-- The settings and the request of some arguments, from what loading the settings came to. -/
def prepare (r : Except String Settings) (a : Arguments) : Except Failure (Settings × Request) := do
  let s ← settings (← loaded r) a
  return (s, ← request s a)

/-- Runs the command with settings that are loaded in some way; a file with settings may be named. -/
def runWith (load : Option String → Except String Settings) (w : Workspace)
    (arguments : List String) : FileTree × Outcome :=
  match Arguments.parse specs arguments with
  | .error refusal => (w.files, refused specs refusal)
  | .ok a =>
    match prepare (load (a.last? "config")) a with
    | .error f => (w.files, failed "" "" f)
    | .ok (s, r) =>
      match runSources r w s with
      | .ok run => deliver w a s run
      | .error (.invalid found) =>
        let (output, errors) := written (outputFormat a) found
        (w.files, ⟨1, output, errors ++ "\n❌ Registry is invalid - nothing generated\n"⟩)
      | .error e => (w.files, failed "" "" (.during "generating artifacts" (.ofError e)))

/-- Runs the command, with the entries of settings in the order they are listed in and without a log. -/
def run (w : Workspace) (arguments : List String) : FileTree × Outcome :=
  runWith w.loadSettings w arguments

end AttributeRegistry.Command.Generate
