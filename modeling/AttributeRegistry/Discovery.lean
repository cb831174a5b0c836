import AttributeRegistry.Document.Basic
import AttributeRegistry.FileTree
import AttributeRegistry.Ordered

/-!
# Finding documents

Which files are documents: every file that is given, and the files below a given directory that have
the extension of a document, unless a name on the way there is skipped. They are listed in the order
of their paths, each once.
-/

namespace AttributeRegistry

/-- The names skipped below directories unless others are given. -/
def defaultSkipped : List String :=
  ["target", ".git", "node_modules"]

namespace FileTree

/-- The documents below the directory a path leads to. -/
def documentsBelow (t : FileTree) (skipped : List String) (path : String) (l : Location) :
    List String :=
  (t.filesBelow l).filterMap fun names =>
    let found := names.foldl Path.join path
    if names.any skipped.contains || (Format.ofPath? found).isNone then none else some found

/-- The documents a path stands for. -/
def documentsAt (t : FileTree) (skipped : List String) (path : String) :
    Except Error (List String) :=
  match t.locate path, t.find path with
  | .ok l, .ok .directory => .ok (t.documentsBelow skipped path l)
  | _, .ok _ => .ok [path]
  | _, .error fault => .error (.file path fault)

/-- Drops every path that leads the same way as the one before it. -/
def dropSame : List String → List String
  | [] => []
  | [path] => [path]
  | path :: next :: rest =>
    if Path.same path next then dropSame (path :: rest) else path :: dropSame (next :: rest)
termination_by paths => paths.length

/-- The documents some paths stand for. -/
def discover (t : FileTree) (skipped : List String) (paths : List String) :
    Except Error (List String) := do
  let found ← paths.mapM (t.documentsAt skipped)
  return dropSame (Ordered.sort Path.compare found.flatten)

/-- The document a path leads to; without a known extension it is taken for YAML. -/
def readSource (t : FileTree) (path : String) : Except Error Source :=
  match t.read path with
  | .ok content => .ok ⟨path, (Format.ofPath? path).getD .yaml, content⟩
  | .error fault => .error (.file path fault)

/-- The documents some paths stand for, read; the first one that cannot be read is reported. -/
def readSources (t : FileTree) (skipped : List String) (paths : List String) :
    Except Error (List Source) := do
  (← t.discover skipped paths).mapM t.readSource

end FileTree

end AttributeRegistry
