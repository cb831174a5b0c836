/-!
# Data

A self-describing value, as a document or a settings file holds it before anything is expected of
it. Every format reads its untyped parts into this type.
-/

namespace AttributeRegistry

/-- A self-describing value. -/
inductive Datum where
  | null
  | bool (b : Bool)
  | int (n : Int)
  | float (x : Float)
  | text (s : String)
  | list (items : List Datum)
  | dict (entries : List (Datum × Datum))
deriving Inhabited

namespace Datum

/-- The integer a datum holds, if it is one that fits 64 bits with a sign. -/
def int64? : Datum → Option Int
  | .int n => if -Int.pow 2 63 ≤ n ∧ n < Int.pow 2 63 then some n else none
  | _ => none

/-- The number a datum holds; an integer counts as a double. -/
def float? : Datum → Option Float
  | .float x => some x
  | .int n => some (Float.ofInt n)
  | _ => none

/-- The text a datum holds. -/
def text? : Datum → Option String
  | .text s => some s
  | _ => none

/-- The entry under a text key, if exactly one entry has it. -/
def get? (key : String) (entries : List (Datum × Datum)) : Option Datum :=
  match entries.filter (fun e => e.1.text? == some key) with
  | [e] => some e.2
  | _ => none

end Datum

end AttributeRegistry
