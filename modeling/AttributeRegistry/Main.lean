import AttributeRegistry.Command.Program

/-!
# The command line

Runs the program that the first argument names with the other arguments. The files it may use are
named on standard input, one on a line; files that it changes are written back. The time that a
report mentions is the one in the variable `CHECKED_AT`.
-/

namespace AttributeRegistry.Console

/-- The lines of a stream. -/
partial def readLines (input : IO.FS.Stream) : IO (List String) := do
  let line ← input.getLine
  if line.isEmpty then return []
  return Text.trimmed line :: (← readLines input)

/-- Where paths begin. -/
def workingDirectory : Location :=
  ["home", "work"]

/-- Adds a file, and the directories around it, to some files. -/
def addFile (files : FileTree) (path : String) (content : ByteArray) : FileTree :=
  let around := ((Path.components path).dropLast).reverse
  let files := (files.makeAll around).toOption.getD files
  (files.writeBytes path content).toOption.getD files

/-- The files of some names. -/
def loadFiles (names : List String) : IO FileTree :=
  names.foldlM
    (fun files (name : String) => do return addFile files name (← IO.FS.readBinFile name))
    ⟨[(["home"], .directory), (workingDirectory, .directory)], workingDirectory⟩

/-- The path from the working directory to a location. -/
def pathTo (l : Location) : String :=
  if workingDirectory.isPrefixOf l then
    String.intercalate "/" (l.drop workingDirectory.length)
  else String.intercalate "/" (workingDirectory.map (fun _ => "..") ++ l)

/-- Writes back what changed. -/
def storeFiles (before after : FileTree) : IO Unit :=
  after.nodes.reverse.forM fun (l, n) =>
    match n, before.node? l with
    | .file new, some (.file old) =>
      if new.toList = old.toList then pure () else IO.FS.writeBinFile (pathTo l) new
    | .file new, _ => IO.FS.writeBinFile (pathTo l) new
    | .directory, none => IO.FS.createDirAll (pathTo l)
    | .directory, some _ => pure ()

/-- The variables that settings are read from. -/
def loadEnvironment : IO (List (String × String)) :=
  (Workspace.userVariable :: Workspace.settingNames.map Workspace.variableOf).filterMapM
    fun variableName => do
    return (← IO.getEnv variableName).map fun value => (variableName, value)

end AttributeRegistry.Console

open AttributeRegistry AttributeRegistry.Console

/-- Runs the program the first argument names. -/
def main (arguments : List String) : IO UInt32 := do
  match arguments with
  | [] =>
    IO.eprintln "error: the name of a program is missing"
    return 2
  | program :: arguments => do
    let files ← loadFiles (← readLines (← IO.getStdin))
    let now := (← IO.getEnv "CHECKED_AT").getD ""
    let work : Workspace := ⟨files, ← loadEnvironment, ".."⟩
    let (after, outcome) := Command.runProgram program now work arguments
    storeFiles files after
    IO.print outcome.output
    IO.eprint outcome.errors
    return outcome.code.toUInt32
