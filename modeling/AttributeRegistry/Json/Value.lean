import AttributeRegistry.Json.Reader

/-!
# Shapes of JSON values

Reading a JSON value that is already there by a shape. Faults have no place then, and the members of
an object are taken in the order it has them.
-/

namespace AttributeRegistry

namespace Json

/-- The fault of a value of another type. -/
def mismatch {α : Type} (v : Json) (expected : String) : Except Fault α :=
  .error (.invalidType (foundOf v) expected)

/-- A name among the cases of a choice; a lone member over the null value may stand for its name. -/
def pickName {α : Type} (cases : List (String × α)) : Json → Except Fault α
  | .str s => Shape.pickCase cases s
  | .obj [(s, v)] => do
    let a ← Shape.pickCase cases s
    match v with
    | .null => return a
    | v => mismatch v "unit"
  | .obj _ => .error (.invalidValue .map "map with a single key")
  | v => mismatch v "string or map"

end Json

open Json

mutual

/-- The value a JSON value of a shape stands for. -/
def Shape.ofJson {α : Type} (s : Shape α) (v : Json) : Except Fault α :=
  match s with
  | .text =>
    match v with
    | .str s => .ok s
    | v => mismatch v "a string"
  | .flag =>
    match v with
    | .bool b => .ok b
    | v => mismatch v "a boolean"
  | .parsed expected parse =>
    match v with
    | .str s => (parse s).mapError .refused
    | v => mismatch v expected
  | .optional s =>
    match v with
    | .null => .ok none
    | v => do return some (← s.ofJson v)
  | .list s =>
    match v with
    | .arr items => items.mapM fun item => s.ofJson item
    | v => mismatch v "a sequence"
  | .choice _ cases => pickName cases v
  | .untagged name pick =>
    match pick v.toDatum with
    | some a => .ok a
    | none => .error (.noVariant name)
  | .record name strict fields make =>
    match v with
    | .obj members => do
      let slots ← members.foldlM (fun slots m => fields.ofJsonMember strict fields.names m.1 m.2 slots)
        fields.empty
      return make (← fields.finish slots)
    | .arr items => do
      let (values, rest) ← fields.ofJsonItems (Shape.positional name fields.names.length) 0 items
      if rest.isEmpty then return make values
      else throw (.invalidLength items.length "fewer elements in array")
    | v => mismatch v ("struct " ++ name)

/-- Takes a member into its slot. -/
def Fields.ofJsonMember {ρ σ : Type} (fields : Fields ρ σ) (strict : Bool) (known : List String)
    (key : String) (v : Json) (slots : σ) : Except Fault σ :=
  match fields, slots with
  | .nil, () => if strict then .error (.unknownField key known) else .ok ()
  | .cons name _ s rest, (slot, slots) =>
    if name = key then
      match slot with
      | some _ => .error (.duplicateField name)
      | none => do return (some (← s.ofJson v), slots)
    else do return (slot, ← rest.ofJsonMember strict known key v slots)

/-- The fields given by position, and the items behind them. -/
def Fields.ofJsonItems {ρ σ : Type} (fields : Fields ρ σ) (expected : String) (index : Nat)
    (items : List Json) : Except Fault (ρ × List Json) :=
  match fields with
  | .nil => .ok ((), items)
  | .cons _ absent s rest =>
    match items, absent with
    | v :: vs, _ => do
      let a ← s.ofJson v
      let (as, vs) ← rest.ofJsonItems expected (index + 1) vs
      return ((a, as), vs)
    | [], some a => do
      let (as, vs) ← rest.ofJsonItems expected (index + 1) []
      return ((a, as), vs)
    | [], none => .error (.invalidLength index expected)

end

end AttributeRegistry
