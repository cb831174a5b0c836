import AttributeRegistry.Decimal.Layout
import AttributeRegistry.Json.Basic
import AttributeRegistry.Text.Quoted

/-!
# Example literals

The values a document gives as examples of an attribute: scalars and lists of them, to any depth.
`Example.display` is how a literal reads in generated documentation.
-/

namespace AttributeRegistry

/-- An example literal. -/
inductive Example where
  | bool (b : Bool)
  | int (n : Int)
  | double (x : Float)
  | text (s : String)
  | list (items : List Example)
deriving Inhabited

namespace Example

/-- The name of a literal's kind, for messages. -/
def kind : Example → String
  | .bool _ => "boolean"
  | .int _ => "int"
  | .double _ => "double"
  | .text _ => "string"
  | .list _ => "array"

/-! ## Text -/

mutual

/-- How a literal reads: texts quoted, doubles with a fraction, lists in brackets. -/
def display : Example → List Char
  | .bool b => (toString b).toList
  | .int n => (toString n).toList
  | .double x => (Decimal.write Decimal.fractionLayout x).toList
  | .text s => Text.literal s.toList
  | .list items => '[' :: displayItems items ++ [']']

/-- The items of a list with a comma and a space between them. -/
def displayItems : List Example → List Char
  | [] => []
  | [v] => display v
  | v :: vs => display v ++ ',' :: ' ' :: displayItems vs

end

/-- `display` as a string. -/
def displayText (v : Example) : String :=
  String.ofList v.display

/-! ## JSON -/

mutual

/-- A literal as JSON. -/
def toJson : Example → Json
  | .bool b => .bool b
  | .int n => .int n
  | .double x => .float x
  | .text s => .str s
  | .list items => .arr (toJsonItems items)

/-- Each literal as JSON. -/
def toJsonItems : List Example → List Json
  | [] => []
  | v :: vs => toJson v :: toJsonItems vs

end

mutual

/-- The literal a datum stands for: the first kind it fits of boolean, 64-bit integer, double, text
and list. -/
def ofDatum? : Datum → Option Example
  | .bool b => some (.bool b)
  | .int n =>
    match (Datum.int n).int64? with
    | some n => some (.int n)
    | none => some (.double (Float.ofInt n))
  | .float x => some (.double x)
  | .text s => some (.text s)
  | .list items => (ofData? items).map .list
  | .null | .dict _ => none

/-- The literals data stand for, if each of them stands for one. -/
def ofData? : List Datum → Option (List Example)
  | [] => some []
  | d :: ds => do return (← ofDatum? d) :: (← ofData? ds)

end

/-! ## Equality -/

mutual

/-- Whether two literals are the same value: doubles by their numeric value, so that the zeros are
equal and a value that is no number equals nothing. -/
def same : Example → Example → Bool
  | .bool a, .bool b => a == b
  | .int a, .int b => a == b
  | .double a, .double b => a == b
  | .text a, .text b => a == b
  | .list a, .list b => sameItems a b
  | _, _ => false

/-- Whether two lists hold the same literals in the same order. -/
def sameItems : List Example → List Example → Bool
  | [], [] => true
  | a :: as, b :: bs => same a b && sameItems as bs
  | _, _ => false

end

instance : BEq Example := ⟨same⟩

end Example

end AttributeRegistry
