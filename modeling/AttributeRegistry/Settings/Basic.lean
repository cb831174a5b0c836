import AttributeRegistry.Codegen.Manifest
import AttributeRegistry.Discovery
import AttributeRegistry.Error
import AttributeRegistry.Generation
import AttributeRegistry.Toml.Writer

/-!
# Settings

What a project says about its registry: where the documents are, what is generated from them and
where it goes, and what it is checked against. Every setting has a default.
-/

namespace AttributeRegistry

open Shape

/-- Where documents are read from. -/
structure SourceSettings where
  /-- Files and directories. -/
  sources : List String
  /-- A version that stands for the declared ones. -/
  version : Option String
  /-- Names skipped below directories. -/
  skipped : List String
deriving DecidableEq, Repr

/-- What is generated. -/
structure OutputSettings where
  targets : List Target
  directory : String
deriving DecidableEq, Repr

/-- How generated modules are checked. -/
structure CheckSettings where
  /-- Whether a difference is an error. -/
  strict : Bool
  /-- Where the modules are, if not where they are generated. -/
  directory : Option String
  /-- The revision of a repository to read them from, and the repository. -/
  revision : Option String
  repository : Option String
deriving DecidableEq, Repr

/-- The settings of a project. -/
structure Settings where
  source : SourceSettings
  output : OutputSettings
  profiles : Codegen.Profiles
  /-- Whether warnings count as errors. -/
  strict : Bool
  check : CheckSettings
deriving DecidableEq, Repr

/-- Where generated modules were written before. -/
inductive Baseline where
  | directory (path : String)
  | revision (repository name path : String)
deriving DecidableEq, Repr

/-! ## Defaults -/

/-- The default of where documents are read from. -/
def SourceSettings.default : SourceSettings :=
  ⟨["registry"], none, defaultSkipped⟩

/-- The default of what is generated. -/
def OutputSettings.default : OutputSettings :=
  ⟨Target.all, "generated"⟩

/-- The default of how modules are checked. -/
def CheckSettings.default : CheckSettings :=
  ⟨false, none, none, none⟩

/-- The default settings. -/
def Settings.default : Settings :=
  ⟨.default, .default, .default, false, .default⟩

/-! ## Shapes -/

/-- The shape of a path. -/
def Path.shape : Shape String :=
  .parsed "path string" .ok

/-- The shape of where documents are read from. -/
def SourceSettings.shape : Shape SourceSettings :=
  .record "RegistrySection" false
    (fieldOr "sources" SourceSettings.default.sources (.list Path.shape) <|
     fieldOr "version" none (.optional .text) <|
     fieldOr "skip_dirs" SourceSettings.default.skipped (.list .text) .nil)
    fun (sources, version, skipped, ()) => ⟨sources, version, skipped⟩

/-- The shape of what is generated. -/
def OutputSettings.shape : Shape OutputSettings :=
  .record "GenerateSection" false
    (fieldOr "targets" OutputSettings.default.targets (.list Target.shape) <|
     fieldOr "output_dir" OutputSettings.default.directory Path.shape .nil)
    fun (targets, directory, ()) => ⟨targets, directory⟩

/-- The shape of whether warnings count as errors. -/
def strictShape : Shape Bool :=
  .record "ValidationSection" false (fieldOr "warnings_as_errors" false .flag .nil)
    fun (strict, ()) => strict

/-- The shape of how modules are checked. -/
def CheckSettings.shape : Shape CheckSettings :=
  .record "CheckSection" false
    (fieldOr "strict" false .flag <|
     fieldOr "baseline_dir" none (.optional Path.shape) <|
     fieldOr "git_revision" none (.optional .text) <|
     fieldOr "git_repo" none (.optional Path.shape) .nil)
    fun (strict, directory, revision, repository, ()) => ⟨strict, directory, revision, repository⟩

/-- The shape of the settings. -/
def Settings.shape : Shape Settings :=
  .record "SemconvConfig" false
    (fieldOr "registry" .default SourceSettings.shape <|
     fieldOr "generate" .default OutputSettings.shape <|
     fieldOr "codegen" .default Codegen.Profiles.shape <|
     fieldOr "validation" false strictShape <|
     fieldOr "check" .default CheckSettings.shape .nil)
    fun (source, output, profiles, strict, check, ()) => ⟨source, output, profiles, strict, check⟩

namespace Settings

/-! ## What they say -/

/-- The version that stands for the declared ones. -/
def version (s : Settings) : Except Error (Option Version) :=
  match s.source.version with
  | none => .ok none
  | some raw =>
    match Version.parse raw with
    | .ok v => .ok (some v)
    | .error e => .error (.invalidVersion e)

/-- What is asked of a run. -/
def request (s : Settings) : Except Error Request := do
  return ⟨s.output.targets, ← s.version, s.profiles, s.strict⟩

/-- Where generated modules were written before. -/
def baseline (s : Settings) : Baseline :=
  let directory := s.check.directory.getD s.output.directory
  match s.check.revision with
  | some revision => .revision (s.check.repository.getD ".") revision directory
  | none => .directory directory

/-- The problem with the version. -/
def versionProblems (s : Settings) : List String :=
  match s.version with
  | .ok _ => []
  | .error e => ["registry.version: " ++ e.message]

/-- What would make a run fail before it starts. -/
def problems (s : Settings) : List String :=
  (if s.source.sources.isEmpty then ["registry.sources is empty"] else [])
  ++ (if s.output.targets.isEmpty then ["generate.targets is empty"] else [])
  ++ s.versionProblems
  ++ s.profiles.java.mismatch
  ++ (if s.check.repository.isSome && s.check.revision.isNone then
    ["check.git_repo is set without check.git_revision"] else [])

/-! ## As text -/

/-- An entry for a setting that may be absent. -/
def optionalEntry (key : String) (value : Option String) : List (String × Toml.Value) :=
  (value.map fun v => (key, Toml.Value.text v)).toList

/-- The sections of the settings. -/
def sections (s : Settings) : List Toml.Section :=
  [⟨"registry", [("sources", .texts s.source.sources)] ++ optionalEntry "version" s.source.version
      ++ [("skip_dirs", .texts s.source.skipped)]⟩,
    ⟨"generate", [("targets", .texts (s.output.targets.map Target.name)),
      ("output_dir", .text s.output.directory)]⟩,
    ⟨"codegen.rust", [("file_name", .text s.profiles.rust.fileName)]⟩,
    ⟨"codegen.python", [("file_name", .text s.profiles.python.fileName),
      ("class_name", .text s.profiles.python.className)]⟩,
    ⟨"codegen.java", optionalEntry "file_name" s.profiles.java.fileName
      ++ [("package", .text s.profiles.java.package),
        ("class_name", .text s.profiles.java.className)]⟩,
    ⟨"validation", [("warnings_as_errors", .flag s.strict)]⟩,
    ⟨"check", [("strict", .flag s.check.strict)]
      ++ optionalEntry "baseline_dir" s.check.directory
      ++ optionalEntry "git_revision" s.check.revision
      ++ optionalEntry "git_repo" s.check.repository⟩]

/-- The settings as they are written. -/
def toText (s : Settings) : String :=
  Toml.writeSections s.sections

end Settings

/-- A baseline in messages. -/
def Baseline.describe : Baseline → String
  | .directory path => path
  | .revision repository name path => repository ++ "@" ++ name ++ ":" ++ path

end AttributeRegistry
