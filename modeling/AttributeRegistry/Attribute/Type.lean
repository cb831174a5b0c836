import AttributeRegistry.Attribute.Example

/-!
# Attribute types

A type is a primitive kind, a flat array of one, or an enumeration of members with values.
`AttributeType.accepts` says which literals a type takes; a double also takes integer literals.
-/

namespace AttributeRegistry

/-- The scalar kinds of values. -/
inductive Scalar where
  | string | int | double | boolean
deriving DecidableEq, Repr

/-- A scalar kind, or an array of values of one. -/
inductive Primitive where
  | scalar (kind : Scalar)
  | array (element : Scalar)
deriving DecidableEq, Repr

/-- The value of an enumeration's member. -/
inductive MemberValue where
  | int (n : Int)
  | text (s : String)
deriving DecidableEq, Repr

/-- A member of an enumeration. -/
structure Member where
  id : String
  value : MemberValue
  brief : Option String
deriving DecidableEq, Repr

/-- The type of an attribute. -/
inductive AttributeType where
  | primitive (p : Primitive)
  | enumeration (members : List Member)
deriving DecidableEq, Repr

/-! ## Names -/

/-- The name of a scalar kind. -/
def Scalar.name : Scalar → String
  | .string => "string"
  | .int => "int"
  | .double => "double"
  | .boolean => "boolean"

namespace Primitive

/-- The name of a primitive type. -/
def name : Primitive → String
  | .scalar kind => kind.name
  | .array element => element.name ++ "[]"

/-- The names a document may use, in the order of the types. -/
def spellings : List (List String × Primitive) :=
  [(["string"], .scalar .string), (["int", "integer"], .scalar .int),
   (["double"], .scalar .double), (["boolean"], .scalar .boolean),
   (["string[]"], .array .string), (["int[]", "integer[]"], .array .int),
   (["double[]"], .array .double), (["boolean[]"], .array .boolean)]

/-- The type of the elements, for arrays. -/
def element : Primitive → Option Primitive
  | .scalar _ => none
  | .array kind => some (.scalar kind)

/-- The type a document means by a name. -/
def ofName? (name : String) : Option Primitive :=
  (spellings.find? fun s => s.1.contains name).map Prod.snd

theorem ofName?_name (p : Primitive) : ofName? p.name = some p := by
  rcases p with k | k <;> cases k <;> decide +kernel

end Primitive

/-- The name of a type, for messages. -/
def AttributeType.display : AttributeType → String
  | .primitive p => p.name
  | .enumeration _ => "enum"

/-! ## Literals of a type -/

/-- Whether a literal is a scalar of a kind. -/
def Scalar.accepts : Scalar → Example → Bool
  | .string, .text _ => true
  | .int, .int _ => true
  | .double, .double _ => true
  | .double, .int _ => true
  | .boolean, .bool _ => true
  | _, _ => false

/-- Whether a literal has the form of a primitive type. -/
def Primitive.accepts : Primitive → Example → Bool
  | .scalar kind, v => kind.accepts v
  | .array kind, .list items => items.all kind.accepts
  | .array _, _ => false

/-- Whether a literal is a member's value. -/
def MemberValue.matches : MemberValue → Example → Bool
  | .int a, .int b => a == b
  | .text a, .text b => a == b
  | _, _ => false

/-- Whether a member's value is an integer. -/
def MemberValue.isInt : MemberValue → Bool
  | .int _ => true
  | .text _ => false

namespace AttributeType

/-- Whether a literal matches a type. -/
def accepts : AttributeType → Example → Bool
  | .primitive p, v => p.accepts v
  | .enumeration members, v => members.any fun m => m.value.matches v

/-- Whether the members of an enumeration agree on one kind of value. -/
def homogeneous (members : List Member) : Bool :=
  let ints := (members.filter fun m => m.value.isInt).length
  ints = 0 || ints = members.length

end AttributeType

/-! ## JSON -/

/-- A member's value as JSON. -/
def MemberValue.toJson : MemberValue → Json
  | .int n => .int n
  | .text s => .str s

/-- A member as JSON; a missing brief is left out. -/
def Member.toJson (m : Member) : Json :=
  .obj (("id", .str m.id) :: ("value", m.value.toJson)
    :: (m.brief.map fun b => ("brief", Json.str b)).toList)

/-- A type as JSON. -/
def AttributeType.toJson : AttributeType → Json
  | .primitive p => .str p.name
  | .enumeration members => .obj [("members", .arr (members.map Member.toJson))]

/-! ## As data -/

namespace Datum

/-- The position a key stands for: its place among the names, or its value as a number. -/
def keyIndex? (names : List String) : Datum → Option Nat
  | .text s => names.findIdx? (· == s)
  | .int n => if 0 ≤ n ∧ n < names.length then some n.toNat else none
  | _ => none

/-- Puts an entry into its slot; nothing if the slot is taken. -/
def fillSlot? (slots : List (Option Datum)) (i : Nat) (d : Datum) : Option (List (Option Datum)) :=
  match slots[i]? with
  | some none => some (slots.set i (some d))
  | _ => none

/-- The fields of a closed record: a dictionary that names each at most once and no other, or a list
that gives them by position. -/
def slots? (names : List String) : Datum → Option (List (Option Datum))
  | .dict entries =>
    entries.foldlM (fun slots e => do fillSlot? slots (← keyIndex? names e.1) e.2)
      (names.map fun _ => none)
  | .list items =>
    if items.length ≤ names.length then
      some (items.map some ++ List.replicate (names.length - items.length) none)
    else none
  | _ => none

end Datum

/-- The primitive type a datum stands for: its name, alone or as the only key over the null value. -/
def Primitive.ofDatum? : Datum → Option Primitive
  | .text s => ofName? s
  | .dict [(.text s, .null)] => ofName? s
  | .dict [(.int n, .null)] => if 0 ≤ n then (spellings[n.toNat]?).map Prod.snd else none
  | _ => none

/-- The member value a datum stands for. -/
def MemberValue.ofDatum? (d : Datum) : Option MemberValue :=
  match d.int64?, d with
  | some n, _ => some (.int n)
  | none, .text s => some (.text s)
  | none, _ => none

/-- The member a datum stands for. -/
def Member.ofDatum? (d : Datum) : Option Member := do
  match ← d.slots? ["id", "value", "brief"] with
  | [some id, some value, brief] =>
    let brief ← match brief with
      | none | some .null => some none
      | some (.text s) => some (some s)
      | some _ => none
    return ⟨← id.text?, ← MemberValue.ofDatum? value, brief⟩
  | _ => none

/-- The type a datum stands for: a primitive type if it names one, else an enumeration. -/
def AttributeType.ofDatum? (d : Datum) : Option AttributeType :=
  match Primitive.ofDatum? d with
  | some p => some (.primitive p)
  | none => do
    match ← d.slots? ["members"] with
    | [some (.list items)] => return .enumeration (← items.mapM Member.ofDatum?)
    | _ => none

end AttributeRegistry
