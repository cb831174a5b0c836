import AttributeRegistry.Text.Blank

/-!
# Target languages

The languages constants are generated for.
-/

namespace AttributeRegistry

/-- A language constants are generated for. -/
inductive Target where
  | rust | python | java
deriving DecidableEq, Repr

namespace Target

/-- Every target, in the order artifacts are listed everywhere. -/
def all : List Target :=
  [.rust, .python, .java]

/-- The name of a target. -/
def name : Target → String
  | .rust => "rust"
  | .python => "python"
  | .java => "java"

/-- The targets by name. -/
def cases : List (String × Target) :=
  all.map fun t => (t.name, t)

/-- The place of a target in the order of targets. -/
def rank : Target → Nat
  | .rust => 0
  | .python => 1
  | .java => 2

/-- The target meant by a name in any case of ASCII letters, with or without blanks around it. -/
def parse (written : String) : Option Target :=
  all.find? fun t => t.name.toList = (Text.trim written.toList).map Char.toLower

end Target

end AttributeRegistry
