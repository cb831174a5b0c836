import AttributeRegistry.Decimal.Parse
import AttributeRegistry.FileTree
import AttributeRegistry.Settings.Basic
import AttributeRegistry.Settings.Layer
import AttributeRegistry.Toml.Reader

/-!
# Loading settings

The layers, from the lowest to the highest: the project's settings files, the user's, a file that is
named, and the environment. Only a file that is named has to be there and has to be text.
-/

namespace AttributeRegistry

/-- What a run works in: files, the environment, and the path of the user's home directory. -/
structure Workspace where
  files : FileTree
  environment : List (String × String)
  home : String

namespace Workspace

/-! ## Files -/

/-- The path of the settings file itself: an extension may be left out behind the name of a file. A
file that is there with another extension, or without one, is none. Settings files are documents of
one format; others that the extension of a file could name are not read. -/
def settingsFile? (w : Workspace) (path : String) : Option String := do
  if w.files.isFile path then
    if Path.extension? path = some "toml" then return path else none
  let _ ← Path.fileName? path
  let extended := Path.ofComponents (Path.components path) ++ ".toml"
  if w.files.isFile extended then return extended else none

/-- A path without what does not count in it. -/
def plainPath (path : String) : String :=
  Path.ofComponents ((Path.components path).filter (· ≠ .here))

/-- A path from the root in place of one from the working directory. -/
def fromRoot (w : Workspace) (path : String) : String :=
  Path.join ("/" ++ String.intercalate "/" w.files.workingDirectory) path

/-- Why a path has no settings file. -/
def noSettingsFile (w : Workspace) (path : String) : String :=
  if w.files.isFile path then
    "configuration file \"" ++ w.fromRoot path ++ "\" is not of a registered file format"
  else "configuration file \"" ++ path ++ "\" not found"

/-- The entries of a settings file. -/
def fileLayer (w : Workspace) (required : Bool) (path : String) :
    Except String (List (String × Setting)) :=
  match w.settingsFile? path with
  | none => if required then .error (w.noSettingsFile path) else .ok []
  | some file =>
    match w.files.read file with
    | .error fault => if required then .error fault.message else .ok []
    | .ok text =>
      let origin := plainPath file
      let located := Except.mapError fun message => message ++ " in " ++ origin
      located do
        match Setting.ofDatum origin (← Toml.parse text) with
        | .table _ entries => return entries
        | v => (v.refuse v.found "a map").mapError Setting.Refusal.message

/-- The settings files of a project. -/
def projectFiles : List String :=
  ["semconv.toml", ".semconv.toml", "config/semconv.toml"]

/-- The variable for the directory of the user's settings. -/
def userVariable : String :=
  "XDG_CONFIG_HOME"

/-- The directory of the user's settings: that of the variable if its path is from the root, and
otherwise one in the home directory. -/
def userDirectory (w : Workspace) : String :=
  ((w.environment.lookup userVariable).filter fun path => path.startsWith "/").getD
    (Path.join w.home ".config")

/-- The settings file of the user. -/
def userFile (w : Workspace) : String :=
  Path.join w.userDirectory "semconv/semconv.toml"

/-- The entries of all settings files. -/
def fileLayers (w : Workspace) (named : Option String) :
    Except String (List (List (String × Setting))) := do
  let user := if w.files.exists? w.userFile then [w.userFile] else []
  let optional ← (projectFiles ++ user).mapM (w.fileLayer false)
  match named with
  | some path => return optional ++ [← w.fileLayer true path]
  | none => return optional

/-! ## The environment -/

/-- What the names of variables with settings begin with. -/
def variableStart : String :=
  "semconv__"

/-- The name of the setting a variable is for. -/
def settingName? (name : String) : Option String := do
  let rest ← Text.dropBeginning? variableStart.toList (Setting.fold name).toList
  return String.ofList (Text.replaceAll '_' ['_'] ['.'] rest)

/-- The settings whose values in the environment are lists, with commas in between. -/
def listNames : List String :=
  ["registry.sources", "registry.skip_dirs", "generate.targets"]

/-- What settings from the environment have for their origin. -/
def environmentOrigin : String :=
  "the environment"

/-- A double: a numeral, or a word for what is no number or infinite. -/
def float? (s : String) : Option Float :=
  let (negative, word) := Decimal.takeSign s.toList
  let signed (x : Float) : Float := if negative then -x else x
  match Setting.fold (String.ofList word) with
  | "inf" => some (signed (1 / 0))
  | "infinity" => some (signed (1 / 0))
  | "nan" => some (signed (0 / 0))
  | _ => Decimal.parse? s.toList

/-- The value of a variable: a flag, a number, a list where one is due, or text. -/
def variableValue (name value : String) : Setting :=
  let lower := Setting.fold value
  if lower = "true" then .flag environmentOrigin true
  else if lower = "false" then .flag environmentOrigin false
  else match Decimal.int64? value.toList with
    | some n => .int environmentOrigin n
    | none =>
      match float? value with
      | some x => .float environmentOrigin x
      | none =>
        if listNames.contains name then
          .list environmentOrigin ((Text.splitOn ',' value.toList).map fun part =>
            .text environmentOrigin (String.ofList part))
        else .text environmentOrigin value

/-- The settings in the environment. -/
def environmentLayer (w : Workspace) : List (String × Setting) :=
  w.environment.filterMap fun (name, value) => do
    let setting ← settingName? name
    return (setting, variableValue setting value)

/-- The names of all settings. -/
def settingNames : List String :=
  Settings.default.sections.flatMap (fun s => s.entries.map fun e => s.name ++ "." ++ e.1)
    ++ ["registry.version", "codegen.java.file_name", "check.baseline_dir", "check.git_revision",
      "check.git_repo"]

/-- The variable a setting is read from. -/
def variableOf (setting : String) : String :=
  (variableStart ++ String.ofList (Text.replaceAll '.' [] ['_', '_'] setting.toList)).map Char.toUpper

/-! ## All layers -/

/-- All layers, one over the other. -/
def layered (w : Workspace) (named : Option String) : Except String Setting := do
  return ((← w.fileLayers named) ++ [w.environmentLayer]).foldl Setting.putLayer .empty

/-- The settings, with the entries of each layer in the order they are listed in; one more file to load
may be named. -/
def loadSettings (w : Workspace) (named : Option String) : Except String Settings := do
  (Settings.shape.readSetting (← w.layered named)).mapError Setting.Refusal.message

end Workspace

end AttributeRegistry
