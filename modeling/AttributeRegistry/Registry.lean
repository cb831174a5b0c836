import AttributeRegistry.Namespace
import AttributeRegistry.Ordered
import AttributeRegistry.Version.Basic

/-!
# Registries

A registry holds one definition for each key, together with the places that declare it, in the order
of the keys. `Registry.ordered` makes that part of the type.

Its canonical JSON, and so its checksum, depends on the version and the definitions alone.
-/

namespace AttributeRegistry

/-- A definition and where it is declared. -/
structure Entry where
  definition : Attribute
  origins : List Origin

/-- The key of an entry. -/
def Entry.key (e : Entry) : String :=
  e.definition.key

/-- A registry. -/
structure Registry where
  version : Version
  entries : List Entry
  /-- The keys are strictly ascending. -/
  ordered : (entries.map Entry.key).Pairwise fun a b => compare a b = .lt

namespace Registry

/-- A registry without attributes. -/
def empty (version : Version) : Registry :=
  ⟨version, [], by simp⟩

/-- The definitions in the order of their keys. -/
def attributes (r : Registry) : List Attribute :=
  r.entries.map Entry.definition

/-- The keys in order. -/
def keys (r : Registry) : List String :=
  r.entries.map Entry.key

/-- The number of attributes. -/
def size (r : Registry) : Nat :=
  r.entries.length

/-- The entry of a key. -/
def find? (r : Registry) (key : String) : Option Entry :=
  r.entries.find? fun e => e.key = key

/-- The definition of a key. -/
def get? (r : Registry) (key : String) : Option Attribute :=
  (r.find? key).map Entry.definition

/-- Whether a key is registered. -/
def contains (r : Registry) (key : String) : Bool :=
  (r.find? key).isSome

/-- Where a key is declared. -/
def origins (r : Registry) (key : String) : List Origin :=
  match r.find? key with
  | some e => e.origins
  | none => []

/-- The deprecated attributes. -/
def deprecated (r : Registry) : List Attribute :=
  r.attributes.filter Attribute.isDeprecated

/-- The names of the namespaces the keys lie in, in order. -/
def namespaces (r : Registry) : List String :=
  Ordered.distinct compare (r.attributes.map fun a => a.ownNamespace.name)

/-- The attributes whose keys lie under a namespace. -/
def attributesIn (r : Registry) (n : Namespace) : List Attribute :=
  r.attributes.filter fun a => n.contains a.key

/-- The attributes that may be used on a signal. -/
def attributesFor (r : Registry) (s : Signal) : List Attribute :=
  r.attributes.filter fun a => a.allows s

/-- The attribute that follows a key on the way to its replacement: the registered replacement of a
deprecated attribute. -/
def successor? (r : Registry) (key : String) : Option String := do
  let next ← (← r.get? key).replacement?
  if r.contains next then some next else none

/-- Follows replacements for at most some steps, to an attribute that has none. -/
def follow (r : Registry) : Nat → String → Option Attribute
  | 0, _ => none
  | steps + 1, key => do
    let a ← r.get? key
    match a.replacement? with
    | some next => follow r steps next
    | none => return a

/-- The attribute to use instead of a key: the key's own unless it is deprecated. A key that is not
registered has none, nor has one whose replacements lead out of the registry or in a circle. -/
def replacementFor (r : Registry) (key : String) : Option Attribute :=
  r.follow (r.size + 1) key

/-! ## Canonical form -/

/-- The canonical JSON of a registry. -/
def toJson (r : Registry) : Json :=
  .obj [("version", .str r.version.text),
    ("attributes", .obj (r.attributes.map fun a => (a.key, a.toJson)))]

/-- The checksum of a registry's canonical JSON. -/
def checksum (r : Registry) : Checksum :=
  .ofJson r.toJson

end Registry

end AttributeRegistry
