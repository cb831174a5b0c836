import AttributeRegistry.Text.Blank

/-!
# Signals

The kinds of telemetry an attribute may be attached to. A document names a signal in any case of
ASCII letters, with or without blanks around it.
-/

namespace AttributeRegistry

/-- A kind of telemetry. -/
inductive Signal where
  | trace | log | metric | profile
deriving DecidableEq, Repr

namespace Signal

/-- Every signal, in the order they are listed everywhere. -/
def all : List Signal :=
  [.trace, .log, .metric, .profile]

theorem mem_all (s : Signal) : s ∈ all := by
  cases s <;> decide

/-- The name of a signal. -/
def name : Signal → String
  | .trace => "trace"
  | .log => "log"
  | .metric => "metric"
  | .profile => "profile"

/-- A name with its ASCII letters in lower case and without the blanks around it. -/
def canonicalName (written : String) : List Char :=
  (Text.trim written.toList).map Char.toLower

/-- The signal a document means by a name. -/
def parse (written : String) : Option Signal :=
  all.find? fun s => s.name.toList = canonicalName written

end Signal

end AttributeRegistry
