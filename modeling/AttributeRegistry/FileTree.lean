import AttributeRegistry.Error
import AttributeRegistry.Path

/-!
# File trees

The files and directories a run works on, as a value. A *location* is the list of names that leads to
a file or directory from the root; a *path* is text, and leads to a location from the working
directory. A path leads through directories only. Names have at most 255 bytes, paths fewer than
4096, and neither holds a null character.

Nothing is in a file tree that is not a file or a directory.
-/

namespace AttributeRegistry

/-- What is at a location. -/
inductive Node where
  | directory
  | file (content : ByteArray)

/-- A place in a file tree. -/
abbrev Location := List String

/-- A file tree. -/
structure FileTree where
  /-- The files and directories; the first one of a location counts. -/
  nodes : List (Location × Node)
  /-- Where paths begin. -/
  workingDirectory : Location

namespace FileTree

/-- What is at a location, if anything is; the root is a directory. -/
def node? (t : FileTree) (l : Location) : Option Node :=
  if l = [] then some .directory else t.nodes.lookup l

/-- Puts a node at a location. -/
def insert (t : FileTree) (l : Location) (n : Node) : FileTree :=
  { t with nodes := (l, n) :: t.nodes.filter fun e => e.1 ≠ l }

/-- Removes what is at a location and all that is below it. -/
def erase (t : FileTree) (l : Location) : FileTree :=
  { t with nodes := t.nodes.filter fun e => !l.isPrefixOf e.1 }

/-! ## Paths -/

/-- Where the next part of a path leads from a directory. -/
def step (l : Location) (part : List Char) : Location :=
  if part = [] || part = ['.'] then l
  else if part = ['.', '.'] then l.dropLast
  else l ++ [String.ofList part]

/-- Where the parts of a path lead from a location. -/
def follow (t : FileTree) (l : Location) : List (List Char) → Except FileFault Location
  | [] => .ok l
  | part :: parts =>
    match t.node? l with
    | none => .error .notFound
    | some (.file _) => .error .notDirectory
    | some .directory =>
      if 255 < (String.ofList part).utf8ByteSize then .error .tooLong
      else follow t (step l part) parts

/-- The location a path leads to; something may be there or not. -/
def locate (t : FileTree) (path : String) : Except FileFault Location :=
  if path.contains '\x00' then .error .nullCharacter
  else if 4096 ≤ path.utf8ByteSize then .error .tooLong
  else if path.isEmpty then .error .notFound
  else
    t.follow (if path.startsWith "/" then [] else t.workingDirectory)
      (Text.splitOn '/' path.toList)

/-- What a path leads to. -/
def find (t : FileTree) (path : String) : Except FileFault Node := do
  match t.node? (← t.locate path) with
  | some n => return n
  | none => throw .notFound

/-- Whether a path leads to something. -/
def exists? (t : FileTree) (path : String) : Bool :=
  (t.find path).toOption.isSome

/-- Whether a path leads to a file. -/
def isFile (t : FileTree) (path : String) : Bool :=
  match t.find path with
  | .ok (.file _) => true
  | _ => false

/-- Whether a path leads to a directory. -/
def isDirectory (t : FileTree) (path : String) : Bool :=
  match t.find path with
  | .ok .directory => true
  | _ => false

/-! ## Reading and writing -/

/-- The bytes of a file. -/
def readBytes (t : FileTree) (path : String) : Except FileFault ByteArray := do
  match ← t.find path with
  | .file content => return content
  | .directory => throw .isDirectory

/-- The text of a file. -/
def read (t : FileTree) (path : String) : Except FileFault String := do
  match String.fromUTF8? (← t.readBytes path) with
  | some text => return text
  | none => throw .notText

/-- A path without slashes at its end. -/
def withoutSlashes (path : String) : String :=
  let kept := (path.toList.reverse.dropWhile (· = '/')).reverse
  if kept.isEmpty then path else String.ofList kept

/-- Writes a file; the directory it lies in has to be there. A path with a slash at its end names a
directory. -/
def writeBytes (t : FileTree) (path : String) (content : ByteArray) : Except FileFault FileTree := do
  let l ← t.locate (withoutSlashes path)
  if path.endsWith "/" then throw .isDirectory
  match t.node? l with
  | some .directory => throw .isDirectory
  | _ => return t.insert l (.file content)

/-- Writes a file of text. -/
def write (t : FileTree) (path text : String) : Except FileFault FileTree :=
  t.writeBytes path text.toUTF8

/-! ## Directories -/

/-- Makes a directory in one that is there. -/
def makeDirectory (t : FileTree) (path : String) : Except FileFault FileTree := do
  let l ← t.locate (withoutSlashes path)
  match t.node? l with
  | some _ => throw .exists
  | none => return t.insert l .directory

/-- Makes a directory unless it is there. A failure comes with the files as they are then. -/
def ensureDirectory (t : FileTree) (path : String) : Except (FileFault × FileTree) FileTree :=
  match t.makeDirectory path with
  | .ok t => .ok t
  | .error fault => if t.isDirectory path then .ok t else .error (fault, t)

/-- Makes a directory, given by its components from the last one on, and the directories around it
that are not there. Directories made before a failure stay. -/
def makeAll (t : FileTree) : List Path.Component → Except (FileFault × FileTree) FileTree
  | [] => .ok t
  | c :: around =>
    let path := Path.ofComponents (c :: around).reverse
    match t.makeDirectory path with
    | .error .notFound => do (← makeAll t around).ensureDirectory path
    | _ => t.ensureDirectory path

/-- Makes a directory and the directories around it that are not there. -/
def makeDirectories (t : FileTree) (path : String) : Except (FileFault × FileTree) FileTree :=
  if path.isEmpty then .ok t
  else match t.makeDirectory path with
    | .error .notFound => do
      (← t.makeAll (Path.components path).reverse.tail).ensureDirectory path
    | _ => t.ensureDirectory path

/-- The files below a location, each as the list of names that leads to it from there. -/
def filesBelow (t : FileTree) (l : Location) : List (List String) :=
  t.nodes.filterMap fun (l', n) =>
    match n with
    | .file _ => if l.isPrefixOf l' && l ≠ l' then some (l'.drop l.length) else none
    | .directory => none

end FileTree

end AttributeRegistry
