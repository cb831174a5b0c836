import AttributeRegistry.Attribute.Definition
import AttributeRegistry.Shape.Basic

/-!
# How attributes are written

The shapes of attribute definitions and their parts in documents. Fields no definition has are
refused.
-/

namespace AttributeRegistry

open Shape

/-- The shape of a constraint. -/
def Constraint.shape : Shape Constraint :=
  .record "Constraint" true
    (fieldOr "not_on" [] (.list .text) <|
     fieldOr "only_on" [] (.list .text) <|
     fieldOr "reason" none (.optional .text) .nil)
    fun (notOn, onlyOn, reason, ()) => ⟨notOn, onlyOn, reason⟩

/-- The shape of a type. -/
def AttributeType.shape : Shape AttributeType :=
  .untagged "AttributeType" AttributeType.ofDatum?

/-- The shape of an example literal. -/
def Example.shape : Shape Example :=
  .untagged "ExampleValue" Example.ofDatum?

/-- The shape of a stability. -/
def Stability.shape : Shape Stability :=
  .choice "Stability" Stability.cases

/-- The shape of an attribute definition. -/
def Attribute.shape : Shape Attribute :=
  .record "AttributeDefinition" true
    (field "key" .text <|
     field "type" AttributeType.shape <|
     field "brief" .text <|
     fieldOr "notes" none (.optional .text) <|
     field "examples" (.list Example.shape) <|
     field "stability" Stability.shape <|
     fieldOr "deprecated_by" none (.optional .text) <|
     fieldOr "constraints" [] (.list Constraint.shape) .nil)
    fun (key, type, brief, notes, examples, stability, deprecatedBy, constraints, ()) =>
      ⟨key, type, brief, notes, examples, stability, deprecatedBy, constraints⟩

end AttributeRegistry
