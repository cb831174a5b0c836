import AttributeRegistry.Codegen.Constant
import AttributeRegistry.Deprecation
import AttributeRegistry.Key

/-!
# Validation

Checks every rule of a registry and reports all that is broken. A registry without errors becomes a
`ValidRegistry`, which is the only thing code is generated from.
-/

namespace AttributeRegistry

namespace Attribute

/-! ## Findings of one attribute -/

/-- A finding about an attribute. -/
def finding (a : Attribute) (code : Code) (message : String) : Finding :=
  .new a.key code message []

/-- The finding of a key outside the grammar. -/
def keyFindings (a : Attribute) : Report :=
  if Key.isValid a.key.toList then []
  else [.new a.key .invalidKey ("key '" ++ a.key ++ "' is not a dotted lowercase identifier")
    ["expected pattern " ++ Key.pattern]]

/-- The finding of a blank brief. -/
def briefFindings (a : Attribute) : Report :=
  if Text.isBlankText a.brief then [a.finding .emptyBrief "brief is blank"] else []

/-- The texts that occur earlier in a list, once for each further occurrence. -/
def repeated (names : List String) : List String :=
  (names.zipIdx.filter fun (name, i) => (names.take i).contains name).map Prod.fst

/-- The findings of an enumeration's members. -/
def enumFindings (a : Attribute) : Report :=
  match a.type with
  | .primitive _ => []
  | .enumeration members =>
    (if members.isEmpty then [a.finding .invalidEnum "enum type declares no members"]
      else if !AttributeType.homogeneous members then
        [a.finding .invalidEnum "enum members mix string and integer values"]
      else [])
    ++ (repeated (members.map Member.id)).map fun id =>
      a.finding .invalidEnum ("enum member id '" ++ id ++ "' is declared twice")

/-- The findings of examples that are missing or have another type. -/
def exampleFindings (a : Attribute) : Report :=
  if a.examples.isEmpty then [a.finding .missingExamples "no examples declared"]
  else a.examples.zipIdx.filterMap fun (e, i) =>
    if a.type.accepts e then none
    else some (a.finding .exampleTypeMismatch
      ("example #" ++ toString i ++ " " ++ e.displayText ++ " (" ++ e.kind
        ++ ") does not match type '" ++ a.type.display ++ "'"))

/-- The finding of the signal at some place of a list: it is unknown, or listed before. -/
def signalFinding? (a : Attribute) (names : List String) (name : String) (i : Nat) :
    Option Finding :=
  match Signal.parse name with
  | some s =>
    if Constraint.mentions (names.take i) s then
      some (a.finding .redundantConstraint ("signal kind '" ++ s.name ++ "' is listed twice"))
    else none
  | none =>
    some (.new a.key .unknownSignalKind ("unknown signal kind '" ++ name ++ "'")
      (hint name (Signal.all.map Signal.name) ++ ["expected one of: trace, log, metric, profile"]))

/-- The findings of a list of signals. -/
def signalFindings (a : Attribute) (names : List String) : Report :=
  names.zipIdx.filterMap fun (name, i) => a.signalFinding? names name i

/-- The findings of a constraint. -/
def constraintFindings (a : Attribute) (c : Constraint) : Report :=
  (if c.notOn.isEmpty && c.onlyOn.isEmpty then
    [a.finding .redundantConstraint "constraint restricts no signal kind"] else [])
  ++ a.signalFindings c.notOn ++ a.signalFindings c.onlyOn

/-- Whether every signal the constraints name exists. -/
def knowsSignals (a : Attribute) : Bool :=
  a.constraints.all fun c => c.signalNames.all fun n => (Signal.parse n).isSome

/-- The findings of all constraints, and of constraints that leave no signal. -/
def constraintsFindings (a : Attribute) : Report :=
  a.constraints.flatMap a.constraintFindings
  ++ if a.knowsSignals && !a.constraints.isEmpty && a.allowedSignals.isEmpty then
    [a.finding .unsatisfiableConstraint "constraints exclude every signal kind"] else []

/-- The findings that depend on nothing but the attribute. -/
def ownFindings (a : Attribute) : Report :=
  a.keyFindings ++ a.briefFindings ++ a.enumFindings ++ a.exampleFindings ++ a.constraintsFindings

end Attribute

namespace Registry

/-! ## Findings of a registry -/

/-- The findings of keys whose constants have the same name. -/
def collisionFindings (r : Registry) : Report :=
  (Codegen.collisions r.keys).filterMap fun (name, keys) =>
    keys.head?.map fun key =>
      .new key .constantNameCollision
        ("keys " ++ Text.commaList keys ++ " all generate the constant " ++ name)
        ["rename one of the keys"]

/-- Everything found about a registry, attribute by attribute, then about the registry as a whole. -/
def check (r : Registry) : Report :=
  (r.attributes.flatMap fun a => a.ownFindings ++ r.replacementFindings a)
    ++ r.graphFindings ++ r.collisionFindings

end Registry

/-- A registry without errors, with the warnings found about it. -/
structure ValidRegistry where
  registry : Registry
  warnings : Report

namespace Registry

/-- Everything found about a registry and before, in order; `strict` turns warnings into errors. -/
def allFindings (r : Registry) (prior : Report) (strict : Bool) : Report :=
  let found : Report := prior ++ r.check
  Report.sort (if strict then Report.promoteWarnings found else found)

/-- The valid registry, or all findings if one of them is an error. -/
def validate (r : Registry) (prior : Report) (strict : Bool) : Except Report ValidRegistry :=
  let found := r.allFindings prior strict
  if found.hasErrors then .error found else .ok ⟨r, found⟩

end Registry

end AttributeRegistry
