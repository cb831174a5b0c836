import AttributeRegistry.Decimal.Layout
import AttributeRegistry.Text.Quoted

/-!
# Faults

Why a value does not have the shape expected of it. A fault is a cause; its wording is
`Fault.message`. Formats differ only in how they name the absent value and write numbers with a
fraction, which `Wording` records.
-/

namespace AttributeRegistry

/-- What was found where something else was expected. -/
inductive Found where
  | bool (b : Bool)
  | integer (n : Int)
  | float (x : Float)
  | text (s : String)
  /-- An integer outside 64 bits, with the name of its width. -/
  | wide (n : Int) (width : String)
  | null
  | option
  | sequence
  | map
  | enumeration
  | unitVariant
deriving Inhabited

/-- A cause for which a value is refused. -/
inductive Fault where
  | invalidType (found : Found) (expected : String)
  | invalidValue (found : Found) (expected : String)
  | invalidLength (length : Nat) (expected : String)
  | unknownVariant (name : String) (known : List String)
  | unknownField (name : String) (known : List String)
  | missingField (name : String)
  | duplicateField (name : String)
  | noVariant (name : String)
  /-- A refusal in the words of whoever refuses. -/
  | refused (reason : String)
deriving Inhabited

/-- How a format words the absent value and a double. -/
structure Wording where
  null : String
  float : Float → String

/-- The wording of JSON: the absent value is `null`, doubles are written as JSON numbers. -/
def Wording.json : Wording :=
  { null := "null", float := Decimal.writeJson }

/-- The plain wording: the absent value is a unit value, doubles are written positionally. -/
def Wording.plain : Wording :=
  { null := "unit value", float := Decimal.write Decimal.fractionLayout }

/-- A name between backquotes. -/
def backquoted (name : String) : String :=
  "`" ++ name ++ "`"

/-- Names to choose from; `none` of them is worded by the caller. -/
def oneOf (none : String) : List String → String
  | [] => none
  | [a] => "expected " ++ backquoted a
  | [a, b] => "expected " ++ backquoted a ++ " or " ++ backquoted b
  | names => "expected one of " ++ String.intercalate ", " (names.map backquoted)

/-- The wording of what was found. -/
def Found.describe (w : Wording) : Found → String
  | .bool b => "boolean " ++ backquoted (toString b)
  | .integer n => "integer " ++ backquoted (toString n)
  | .float x => "floating point " ++ backquoted (w.float x)
  | .text s => "string " ++ Text.quoted s
  | .wide n width => "integer " ++ backquoted (toString n) ++ " as " ++ width
  | .null => w.null
  | .option => "Option value"
  | .sequence => "sequence"
  | .map => "map"
  | .enumeration => "enum"
  | .unitVariant => "unit variant"

/-- The wording of a fault. -/
def Fault.message (w : Wording) : Fault → String
  | .invalidType found expected =>
    "invalid type: " ++ found.describe w ++ ", expected " ++ expected
  | .invalidValue found expected =>
    "invalid value: " ++ found.describe w ++ ", expected " ++ expected
  | .invalidLength length expected =>
    "invalid length " ++ toString length ++ ", expected " ++ expected
  | .unknownVariant name known =>
    "unknown variant " ++ backquoted name ++ ", " ++ oneOf "there are no variants" known
  | .unknownField name known =>
    "unknown field " ++ backquoted name ++ ", " ++ oneOf "there are no fields" known
  | .missingField name => "missing field " ++ backquoted name
  | .duplicateField name => "duplicate field " ++ backquoted name
  | .noVariant name => "data did not match any variant of untagged enum " ++ name
  | .refused reason => reason

end AttributeRegistry
