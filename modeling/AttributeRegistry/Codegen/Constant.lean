import AttributeRegistry.Ordered

/-!
# Constant names

Every generated module declares one constant per attribute. Its name is the key in capitals, with
underscores for periods, hyphens and spaces; keys that come out alike collide.
-/

namespace AttributeRegistry.Codegen

/-- One character of a constant's name. -/
def constantChar (c : Char) : Char :=
  if c = '.' ∨ c = '-' ∨ c = ' ' then '_' else c.toUpper

/-- The name of the constant for a key. -/
def constantName (key : String) : String :=
  String.ofList (key.toList.map constantChar)

/-- The constant names that more than one of the keys has, in order, each with those keys in
order. -/
def collisions (keys : List String) : List (String × List String) :=
  (Ordered.distinct compare (keys.map constantName)).filterMap fun name =>
    let claimants := keys.filter fun key => constantName key = name
    if 1 < claimants.length then some (name, Ordered.sortStrings claimants) else none

end AttributeRegistry.Codegen
