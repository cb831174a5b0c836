import AttributeRegistry.Json.Basic
import AttributeRegistry.Ordered

/-!
# Findings

What is wrong, or doubtful, about a registry. Nothing stops at the first finding: every pass adds to
a list of them, so that one run reports all there is.

A report is ordered by subject, then by code in the order the codes are declared here, then by
message; what is equal in all three keeps its order.
-/

namespace AttributeRegistry

/-- How serious a finding is. -/
inductive Severity where
  | warning | error
deriving DecidableEq, Repr

/-- The name of a severity. -/
def Severity.name : Severity → String
  | .warning => "warning"
  | .error => "error"

/-- The kinds of findings. -/
inductive Code where
  /-- A document breaks the grammar of declarations. -/
  | malformedSchema
  /-- Two different definitions share a key. -/
  | conflictingDefinition
  /-- Documents declare different registry versions. -/
  | versionConflict
  /-- A key does not follow the grammar of keys. -/
  | invalidKey
  /-- No examples are declared. -/
  | missingExamples
  /-- An example does not match the type. -/
  | exampleTypeMismatch
  /-- An enumeration without members, with mixed values, or with an identifier declared twice. -/
  | invalidEnum
  /-- The brief is blank. -/
  | emptyBrief
  /-- A deprecated attribute names no replacement. -/
  | missingDeprecatedBy
  /-- An attribute that is not deprecated names a replacement. -/
  | unexpectedDeprecatedBy
  /-- The replacement does not exist. -/
  | danglingDeprecation
  /-- The replacement is deprecated itself. -/
  | deprecationChain
  /-- Replacements lead back to where they started. -/
  | deprecationCycle
  /-- A constraint names a signal that does not exist. -/
  | unknownSignalKind
  /-- The constraints leave no signal. -/
  | unsatisfiableConstraint
  /-- A constraint restricts nothing, or lists a signal twice. -/
  | redundantConstraint
  /-- Keys share the name of their generated constant. -/
  | constantNameCollision
deriving DecidableEq, Repr

namespace Code

/-- Every code with its name and its label, in order. -/
def table : List (Code × String × String) :=
  [(.malformedSchema, "MalformedSchema", "E001"),
   (.conflictingDefinition, "ConflictingDefinition", "E002"),
   (.versionConflict, "VersionConflict", "E003"),
   (.invalidKey, "InvalidKey", "E004"),
   (.missingExamples, "MissingExamples", "E005"),
   (.exampleTypeMismatch, "ExampleTypeMismatch", "E006"),
   (.invalidEnum, "InvalidEnum", "E007"),
   (.emptyBrief, "EmptyBrief", "W001"),
   (.missingDeprecatedBy, "MissingDeprecatedBy", "E008"),
   (.unexpectedDeprecatedBy, "UnexpectedDeprecatedBy", "E009"),
   (.danglingDeprecation, "DanglingDeprecation", "E010"),
   (.deprecationChain, "DeprecationChain", "E011"),
   (.deprecationCycle, "DeprecationCycle", "E012"),
   (.unknownSignalKind, "UnknownSignalKind", "E013"),
   (.unsatisfiableConstraint, "UnsatisfiableConstraint", "E014"),
   (.redundantConstraint, "RedundantConstraint", "W002"),
   (.constantNameCollision, "ConstantNameCollision", "E015")]

/-- The place of a code in the order of codes. -/
def rank (c : Code) : Nat :=
  table.findIdx fun row => row.1 = c

/-- The name of a code. -/
def name (c : Code) : String :=
  match table.find? fun row => row.1 = c with
  | some row => row.2.1
  | none => ""

/-- The label of a code in messages. -/
def label (c : Code) : String :=
  match table.find? fun row => row.1 = c with
  | some row => row.2.2
  | none => ""

/-- The codes by name. -/
def cases : List (String × Code) :=
  table.map fun row => (row.2.1, row.1)

/-- The severity findings of a code have. -/
def severity : Code → Severity
  | .emptyBrief | .redundantConstraint => .warning
  | _ => .error

end Code

/-- Something found about a registry. -/
structure Finding where
  /-- The attribute key or document concerned. -/
  subject : String
  code : Code
  severity : Severity
  message : String
  /-- Where, why, or what to do instead. -/
  context : List String
deriving DecidableEq, Repr

namespace Finding

/-- A finding with the severity of its code. -/
def new (subject : String) (code : Code) (message : String) (context : List String) : Finding :=
  ⟨subject, code, code.severity, message, context⟩

/-- Whether a finding is an error. -/
def isError (f : Finding) : Bool :=
  f.severity == .error

/-- The order of a report. -/
def compare (a b : Finding) : Ordering :=
  (Ord.compare a.subject b.subject).then <|
  (Ord.compare a.code.rank b.code.rank).then <|
  Ord.compare a.message b.message

/-- A finding as text: one line, and one for each part of its context. -/
def display (f : Finding) : String :=
  "[" ++ f.code.label ++ "] " ++ f.severity.name ++ ": " ++ f.message ++ " (" ++ f.subject ++ ")"
    ++ String.join (f.context.map fun c => "\n  - " ++ c)

/-- A finding as JSON; no context is left out. -/
def toJson (f : Finding) : Json :=
  .obj ([("subject", .str f.subject), ("code", .str f.code.name),
      ("severity", .str f.severity.name), ("message", .str f.message)]
    ++ if f.context.isEmpty then [] else [("context", .arr (f.context.map Json.str))])

end Finding

/-- A list of findings. -/
abbrev Report := List Finding

namespace Report

/-- The errors of a report. -/
def errors (r : Report) : Report :=
  r.filter fun f => f.severity = .error

/-- The warnings of a report. -/
def warnings (r : Report) : Report :=
  r.filter fun f => f.severity = .warning

/-- Whether a report holds an error. -/
def hasErrors (r : Report) : Bool :=
  r.any Finding.isError

/-- The findings of a code. -/
def withCode (r : Report) (c : Code) : Report :=
  r.filter fun f => f.code = c

/-- The report with every warning turned into an error. -/
def promoteWarnings (r : Report) : Report :=
  r.map fun f => { f with severity := .error }

/-- The report in order. -/
def sort (r : Report) : Report :=
  Ordered.sort Finding.compare r

/-- A report as text, with the counts behind the findings. -/
def format (r : Report) : String :=
  let body := String.join (r.map fun f => f.display ++ "\n")
  let count (fs : Report) (what : String) : String := toString fs.length ++ " " ++ what ++ "(s)"
  if r.hasErrors then
    body ++ "\n" ++ count r.errors "error" ++ ", " ++ count r.warnings "warning" ++ "\n"
  else if r.isEmpty then body
  else body ++ "\n" ++ count r.warnings "warning" ++ "\n"

/-- A report as JSON. -/
def toJson (r : Report) : Json :=
  .obj [("items", .arr (r.map Finding.toJson))]

end Report

end AttributeRegistry
