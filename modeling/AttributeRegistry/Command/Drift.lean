import AttributeRegistry.Command.Outcome

/-!
# The command that checks for drift

Generates the modules of a registry and compares them with those that were written before. Nothing
is written.
-/

namespace AttributeRegistry.Command.Drift

/-- The options. -/
def specs : ArgumentSpecs :=
  { about := "Detect drift between the registry and persisted generated code"
    usage := "semconv-drift [OPTIONS]"
    options := sourceOptions ++ [.path "baseline" 'b', .text "git-revision" none,
      .path "git-repo" none, .flag "strict", .flag "verbose"]
    positional := 0
    subcommands := false }

/-- The settings with what is asked for. -/
def settings (w : Workspace) (a : Arguments) : Except Failure Settings := do
  let s ← withSources (← loadSettings w a) a
  let check := s.check
  return { s with check :=
    { strict := check.strict || a.has "strict"
      directory := a.last? "baseline" <|> check.directory
      revision := a.last? "git-revision" <|> check.revision
      repository := a.last? "git-repo" <|> check.repository } }

/-- The lines about a module. -/
def itemLines (verbose : Bool) (i : DriftItem) : String :=
  let line (mark ending : String) : String :=
    "   " ++ mark ++ " " ++ i.fileName ++ " (" ++ i.target.name ++ ")" ++ ending ++ "\n"
  match i.status with
  | .unchanged => line "✅" ""
  | .missing => line "📕" " - never generated"
  | .changed diff =>
    line "📝" " - changed"
      ++ if verbose then
        String.join ((Text.lines diff.toList).map fun l => "      " ++ String.ofList l ++ "\n")
      else ""

/-- The lines about a registry of another version. -/
def versionLines (r : DriftReport) : String :=
  match r.versionChanged, r.writtenVersion with
  | true, some v => "🔖 Registry version " ++ v.text ++ " -> " ++ r.version.text ++ "\n\n"
  | _, _ => ""

/-- A report as text. -/
def reportText (b : Baseline) (verbose : Bool) (r : DriftReport) : String :=
  "🔍 Drift check against " ++ b.describe ++ "\n\n" ++ versionLines r
    ++ String.join (r.items.map (itemLines verbose))
    ++ "\n📊 SUMMARY:\n   Artifacts: " ++ toString r.items.length
    ++ "\n   Drifted:   " ++ toString r.count ++ "\n"

/-- A report as JSON, with the time of the check. -/
def reportJson (now : String) (b : Baseline) (strict : Bool) (r : DriftReport) : Json :=
  .obj ([("checked_at", .str now), ("baseline", .str b.describe), ("strict", .bool strict)]
    ++ r.members)

/-- The end of a check. -/
def outcome (now : String) (a : Arguments) (s : Settings) (r : DriftReport) : Outcome :=
  let output := match outputFormat a with
    | .json => (reportJson now s.baseline s.check.strict r).toIndentedText ++ "\n"
    | .text => reportText s.baseline (a.has "verbose") r
  if !r.detected then ⟨0, output, "\n✅ No drift detected - generated code is in sync\n"⟩
  else if !r.passes s.check.strict then
    ⟨1, output, "\n❌ Drift detected (strict mode) - regenerate and commit\n"⟩
  else ⟨0, output, "\n⚠️  Drift detected - regenerate to update persisted code\n"⟩

/-- The settings and the request of some arguments. -/
def prepare (w : Workspace) (a : Arguments) : Except Failure (Settings × Request) := do
  let s ← settings w a
  return (s, ← orFail s.request)

/-- The report on a run. -/
def compare (w : Workspace) (s : Settings) (run : Run) : Except Failure DriftReport := do
  let written ← doing ("reading baseline " ++ s.baseline.describe)
    (orFail (s.baseline.read w.files run.artifacts))
  return .compare written run.artifacts

/-- The end after a failure. -/
def failed (f : Failure) : Outcome :=
  ⟨2, "", "❌ Error: " ++ f.message ++ "\n"⟩

/-- Runs the command at some time. -/
def run (now : String) (w : Workspace) (arguments : List String) : Outcome :=
  match Arguments.parse specs arguments with
  | .error refusal => refused specs refusal
  | .ok a =>
    match prepare w a with
    | .error f => failed f
    | .ok (s, r) =>
      match runSources r w s with
      | .error (.invalid found) =>
        ⟨2, "", found.format ++ "\n❌ Registry is invalid - cannot check drift\n"⟩
      | .error e => failed (.during "generating artifacts" (.ofError e))
      | .ok run =>
        match compare w s run with
        | .ok report => outcome now a s report
        | .error f => failed f

end AttributeRegistry.Command.Drift
