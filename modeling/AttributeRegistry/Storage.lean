import AttributeRegistry.Codegen.Manifest
import AttributeRegistry.Drift
import AttributeRegistry.FileTree
import AttributeRegistry.Settings.Basic

/-!
# Modules in files

Writing the modules of a run into a directory, and reading back what was written there. The manifest
is written last, so that it never records a module that is not there.
-/

namespace AttributeRegistry

open Codegen

/-- Writes files one after the other; gives the files as they then are, and the paths written or the
first error. -/
def FileTree.writeAll (t : FileTree) : List (String × String) → FileTree × Except Error (List String)
  | [] => (t, .ok [])
  | (path, text) :: more =>
    match t.write path text with
    | .error fault => (t, .error (.file path fault))
    | .ok t =>
      let (t, written) := t.writeAll more
      (t, written.map (path :: ·))

namespace Codegen.Artifacts

/-- The files of a run in a directory, the manifest last. -/
def files (a : Artifacts) (directory : String) : List (String × String) :=
  a.items.map (fun i => (Path.join directory i.fileName, i.content))
    ++ [(Path.join directory manifestFile, a.manifest.toText)]

/-- Writes a run into a directory, which is made if it is not there. -/
def writeTo (a : Artifacts) (directory : String) (t : FileTree) :
    FileTree × Except Error (List String) :=
  match t.makeDirectories directory with
  | .error (fault, t) => (t, .error (.file directory fault))
  | .ok t => t.writeAll (a.files directory)

end Codegen.Artifacts

/-- The text of a file that may be missing. -/
def FileTree.readOptional (t : FileTree) (path : String) : Except Error (Option String) :=
  match t.read path with
  | .ok text => .ok (some text)
  | .error .notFound => .ok none
  | .error fault => .error (.file path fault)

namespace Snapshot

/-- Adds the files of some names in a directory, as far as they are there. -/
def addFiles (t : FileTree) (directory : String) (s : Snapshot) :
    List String → Except Error Snapshot
  | [] => .ok s
  | name :: names => do
    match ← t.readOptional (Path.join directory name) with
    | some text => addFiles t directory (s.insert name text) names
    | none => addFiles t directory s names

/-- The files of a run, and the manifest, that were written into a directory before. -/
def ofDirectory (t : FileTree) (directory : String) (a : Artifacts) : Except Error Snapshot := do
  let s ← addFiles t directory .empty (a.items.map Artifact.fileName)
  match ← t.readOptional (Path.join directory manifestFile) with
  | none => return s
  | some text =>
    match Manifest.parse text with
    | .ok m => return { s with manifest := some m }
    | .error message => throw (.json message)

end Snapshot

/-- What a baseline holds for a run. There is no repository among the files of a file tree. -/
def Baseline.read (t : FileTree) (a : Artifacts) : Baseline → Except Error Snapshot
  | .directory path => Snapshot.ofDirectory t path a
  | .revision repository _ _ => .error (.noRepository repository)

/-- The run for the documents some paths stand for. -/
def Request.runFiles (r : Request) (t : FileTree) (skipped paths : List String) :
    Except Error Run := do
  (r.run (← t.readSources skipped paths)).mapError .invalid

end AttributeRegistry
