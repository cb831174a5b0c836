import AttributeRegistry.Attribute.Constraint
import AttributeRegistry.Attribute.Type
import AttributeRegistry.Checksum

/-!
# Attribute definitions

One telemetry attribute as a document defines it. Its canonical JSON names the fields in a fixed
order and leaves out those that are missing or empty; two declarations of a key are compared by the
checksum of that form.
-/

namespace AttributeRegistry

/-- The stage of an attribute's life. -/
inductive Stability where
  | experimental | stable | deprecated
deriving DecidableEq, Repr

/-- The name of a stability. -/
def Stability.name : Stability → String
  | .experimental => "experimental"
  | .stable => "stable"
  | .deprecated => "deprecated"

/-- The stabilities by name. -/
def Stability.cases : List (String × Stability) :=
  [("experimental", .experimental), ("stable", .stable), ("deprecated", .deprecated)]

/-- The definition of an attribute. -/
structure Attribute where
  /-- The dotted identifier, unique in a registry. -/
  key : String
  type : AttributeType
  brief : String
  notes : Option String
  examples : List Example
  stability : Stability
  /-- The key of the attribute that replaces this one. -/
  deprecatedBy : Option String
  constraints : List Constraint

namespace Attribute

/-! ## Building -/

/-- A stable attribute without notes and constraints. -/
def new (key : String) (type : AttributeType) (brief : String) (examples : List Example) :
    Attribute :=
  ⟨key, type, brief, none, examples, .stable, none, []⟩

/-- The attribute, deprecated in favour of another key. -/
def deprecatedInFavorOf (a : Attribute) (replacement : String) : Attribute :=
  { a with stability := .deprecated, deprecatedBy := some replacement }

/-- The attribute with notes. -/
def withNotes (a : Attribute) (notes : String) : Attribute :=
  { a with notes := some notes }

/-- The attribute with a stability. -/
def withStability (a : Attribute) (stability : Stability) : Attribute :=
  { a with stability }

/-- The attribute with one more constraint. -/
def withConstraint (a : Attribute) (c : Constraint) : Attribute :=
  { a with constraints := a.constraints ++ [c] }

/-! ## Questions -/

/-- Whether an attribute is deprecated. -/
def isDeprecated (a : Attribute) : Bool :=
  a.stability == .deprecated

/-- Whether every constraint of an attribute permits a signal. -/
def allows (a : Attribute) (s : Signal) : Bool :=
  a.constraints.all fun c => c.allows s

/-- The signals every constraint of an attribute permits. -/
def allowedSignals (a : Attribute) : List Signal :=
  Signal.all.filter a.allows

/-- The key a deprecated attribute names as its replacement. -/
def replacement? (a : Attribute) : Option String :=
  if a.isDeprecated then a.deprecatedBy else none

/-! ## Canonical form -/

/-- An optional text as a member that is left out when missing. -/
def textMember (key : String) (value : Option String) : List (String × Json) :=
  (value.map fun s => (key, Json.str s)).toList

/-- The canonical JSON of an attribute. -/
def toJson (a : Attribute) : Json :=
  .obj <|
    [("key", .str a.key), ("type", a.type.toJson), ("brief", .str a.brief)]
    ++ textMember "notes" a.notes
    ++ [("examples", .arr (Example.toJsonItems a.examples)), ("stability", .str a.stability.name)]
    ++ textMember "deprecated_by" a.deprecatedBy
    ++ (if a.constraints.isEmpty then [] else
        [("constraints", .arr (a.constraints.map Constraint.toJson))])

/-- The checksum of an attribute's canonical JSON. -/
def checksum (a : Attribute) : Checksum :=
  .ofJson a.toJson

end Attribute

end AttributeRegistry
