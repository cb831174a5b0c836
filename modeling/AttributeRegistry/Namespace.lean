import AttributeRegistry.Attribute.Definition
import AttributeRegistry.Text.Lines

/-!
# Namespaces and origins

The namespace of a key is its first dotted segment. An origin says where a declaration stands: its
document, and its place among the declarations there, counted from zero.
-/

namespace AttributeRegistry

/-- The key `name`, a period, and at least one more character: the form of keys under a name. -/
def liesUnder (name key : List Char) : Bool :=
  match Text.dropBeginning? name key with
  | some ('.' :: _ :: _) => true
  | _ => false

/-- The name of a namespace. -/
structure Namespace where
  name : String
deriving DecidableEq, Repr

namespace Namespace

/-- The namespace of a key. -/
def ofKey (key : String) : Namespace :=
  ⟨String.ofList (key.toList.takeWhile (· != '.'))⟩

/-- Whether a key lies under a namespace. -/
def contains (n : Namespace) (key : String) : Bool :=
  liesUnder n.name.toList key.toList

end Namespace

/-- The namespace of an attribute. -/
def Attribute.ownNamespace (a : Attribute) : Namespace :=
  .ofKey a.key

/-- Where a declaration stands. -/
structure Origin where
  document : String
  index : Nat
deriving DecidableEq, Repr

namespace Origin

/-- An origin as text. -/
def display (o : Origin) : String :=
  o.document ++ "#" ++ toString o.index

/-- Origins are ordered by document, then by place. -/
def compare (a b : Origin) : Ordering :=
  (Ord.compare a.document b.document).then (Ord.compare a.index b.index)

instance : Ord Origin := ⟨Origin.compare⟩

end Origin

/-- A declaration of an attribute and where it stands. -/
structure Fragment where
  definition : Attribute
  origin : Origin

end AttributeRegistry
