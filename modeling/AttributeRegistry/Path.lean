import AttributeRegistry.Text.Lines

/-!
# Paths

A path is the text that names a file or directory. What it means is its list of components: repeated
and trailing slashes do not count, nor does a period that stands for the directory it is in, except
at the beginning. Paths are compared by their components.
-/

namespace AttributeRegistry.Path

/-- A component of a path. -/
inductive Component where
  /-- The slash a path from the root begins with. -/
  | root
  /-- The period a path begins with. -/
  | here
  /-- Two periods: the directory around. -/
  | up
  | name (s : String)
deriving DecidableEq, Repr

namespace Component

/-- The place of a kind of component in the order of components. -/
def rank : Component → Nat
  | .root => 0
  | .here => 1
  | .up => 2
  | .name _ => 3

/-- The name of a component that has one. -/
def nameText : Component → String
  | .name s => s
  | _ => ""

/-- Names come last, in the order of their characters. -/
def compare (a b : Component) : Ordering :=
  (Ord.compare a.rank b.rank).then (Ord.compare a.nameText b.nameText)

end Component

/-- The component a part between slashes stands for, if it counts behind the first one. -/
def component? (part : List Char) : Option Component :=
  if part = [] || part = ['.'] then none
  else if part = ['.', '.'] then some .up
  else some (.name (String.ofList part))

/-- The components of a path. -/
def components (path : String) : List Component :=
  match Text.splitOn '/' path.toList with
  | [] :: rest =>
    if path.isEmpty then [] else .root :: rest.filterMap component?
  | ['.'] :: rest => .here :: rest.filterMap component?
  | parts => parts.filterMap component?

/-- A component as it is written. -/
def Component.text : Component → String
  | .root => ""
  | .here => "."
  | .up => ".."
  | .name s => s

/-- The shortest path with some components. -/
def ofComponents : List Component → String
  | [.root] => "/"
  | cs => String.intercalate "/" (cs.map Component.text)

/-- Paths in the order of their components. -/
def compare (a b : String) : Ordering :=
  List.compareLex Component.compare (components a) (components b)

/-- Whether two paths have the same components. -/
def same (a b : String) : Bool :=
  components a = components b

/-- The name of the file or directory a path leads to. -/
def fileName? (path : String) : Option String :=
  match (components path).getLast? with
  | some (.name s) => some s
  | _ => none

/-- What stands behind the last period of a name that has something in front of it. -/
def extensionOf? (name : List Char) : Option (List Char) :=
  let ending := name.reverse.takeWhile (· != '.')
  if ending.length + 1 < name.length then some ending.reverse else none

/-- The extension of the file a path leads to. -/
def extension? (path : String) : Option String := do
  return String.ofList (← extensionOf? (← fileName? path).toList)

/-- A path inside a directory; a path from the root stays as it is. -/
def join (dir path : String) : String :=
  if path.startsWith "/" || dir.isEmpty then path
  else if dir.endsWith "/" then dir ++ path
  else dir ++ "/" ++ path

end AttributeRegistry.Path
