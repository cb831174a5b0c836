import AttributeRegistry.Decimal.Parse
import AttributeRegistry.Shape.Fault
import AttributeRegistry.Text.Hex
import AttributeRegistry.Yaml.Document

/-!
# What plain scalars stand for

A plain scalar stands for the null value, a boolean, an integer or a double if it is written like
one, and for its text otherwise. Integers may be hexadecimal, octal or binary; digits with a zero in
front are no number. An integer that does not fit 64 bits is known by the width it needs.
-/

namespace AttributeRegistry.Yaml

/-- What a scalar stands for. -/
inductive Value where
  | null
  | bool (b : Bool)
  | int (n : Int)
  | wide (n : Int) (width : String)
  | float (x : Float)
  | text (s : String)

/-- The spellings of the null value. -/
def isNull (s : String) : Bool :=
  ["~", "null", "Null", "NULL"].contains s

/-- The boolean a text spells. -/
def bool? (s : String) : Option Bool :=
  if ["true", "True", "TRUE"].contains s then some true
  else if ["false", "False", "FALSE"].contains s then some false
  else none

/-- Whether a text is a number of several digits with a zero in front, its sign apart. -/
def isPadded (cs : List Char) : Bool :=
  match (Decimal.takeSign cs).2 with
  | '0' :: c :: rest => (c :: rest).all Char.isDigit
  | _ => false

/-! ## Integers -/

/-- The number some digits of a base stand for. -/
def digits? (base : Nat) (cs : List Char) : Option Nat :=
  if cs.isEmpty then none
  else cs.foldlM (fun n c => do
    let d ← Text.hexValue? c
    if d < base then some (base * n + d) else none) 0

/-- The number behind the mark of a base. -/
def based? (cs : List Char) : Option Nat :=
  match cs with
  | '0' :: 'x' :: cs => digits? 16 cs
  | '0' :: 'o' :: cs => digits? 8 cs
  | '0' :: 'b' :: cs => digits? 2 cs
  | _ => none

/-- The number that is not negative a text stands for. -/
def natural? (cs : List Char) : Option Nat :=
  let unsigned := match cs with
    | '+' :: cs => cs
    | cs => cs
  match based? unsigned with
  | some n => some n
  | none => if isPadded cs then none else digits? 10 unsigned

/-- The number a text with a minus sign stands for. -/
def negative? (cs : List Char) : Option Int :=
  match cs with
  | '-' :: digits =>
    match based? digits with
    | some n => some (-n)
    | none => if isPadded cs then none else (digits? 10 digits).map fun n => -n
  | _ => none

/-- The integer a text stands for, if 128 bits hold it. -/
def integer? (cs : List Char) : Option Value :=
  match natural? cs, negative? cs with
  | some n, _ =>
    if n < Nat.pow 2 64 then some (.int n)
    else if n < Nat.pow 2 128 then some (.wide n "u128") else none
  | none, some n =>
    if -Int.pow 2 63 ≤ n then some (.int n)
    else if -Int.pow 2 127 ≤ n then some (.wide n "i128") else none
  | none, none => none

/-! ## Doubles -/

/-- The double a text stands for; a numeral beyond the range of doubles stands for none. -/
def float? (cs : List Char) : Option Float :=
  let s := String.ofList cs
  let unsigned := match cs with
    | '+' :: rest => rest
    | cs => cs
  if [".inf", ".Inf", ".INF"].contains (String.ofList unsigned) then some (1 / 0)
  else if ["-.inf", "-.Inf", "-.INF"].contains s then some (-1 / 0)
  else if [".nan", ".NaN", ".NAN"].contains s then some (0 / 0)
  else
    match cs with
    | '+' :: '+' :: _ | '+' :: '-' :: _ => none
    | _ => (Decimal.parse? unsigned).filter Float.isFinite

/-! ## Scalars -/

/-- What a plain scalar without a tag stands for. -/
def Value.ofPlain (s : String) : Value :=
  let cs := s.toList
  if cs = [] || isNull s then .null
  else match bool? s with
    | some b => .bool b
    | none =>
      match integer? cs with
      | some v => v
      | none =>
        if isPadded cs then .text s
        else match float? cs with
          | some x => .float x
          | none => .text s

/-- The tags of booleans, integers, doubles and the null value. -/
def standardTag (name : String) : Tag :=
  octets ("tag:yaml.org,2002:" ++ name).toList

/-- What a scalar stands for. A standard tag asks for a value of its type; a tag of the document's
own changes nothing here; any other tag makes the scalar a text. -/
def Value.ofScalar (tag : Option Tag) (plain : Bool) (s : String) : Except Fault Value :=
  let refuse (expected : String) : Except Fault Value :=
    .error (.invalidValue (.text s) expected)
  match tag with
  | none => .ok (if plain then .ofPlain s else .text s)
  | some tag =>
    if tag = standardTag "bool" then
      match bool? s with
      | some b => .ok (.bool b)
      | none => refuse "a boolean"
    else if tag = standardTag "int" then
      match integer? s.toList with
      | some v => .ok v
      | none => refuse "an integer"
    else if tag = standardTag "float" then
      match float? s.toList with
      | some x => .ok (.float x)
      | none => refuse "a float"
    else if tag = standardTag "null" then
      if isNull s then .ok .null else refuse "null"
    else if tag.head? = some '!'.toUInt8 && plain then .ok (.ofPlain s)
    else .ok (.text s)

/-- A value as something found where something else was expected. -/
def Value.found : Value → Found
  | .null => .null
  | .bool b => .bool b
  | .int n => .integer n
  | .wide n width => .wide n width
  | .float x => .float x
  | .text s => .text s

/-- The name of a document's own tag, without the exclamation mark in front unless nothing follows
it. A tag that is no text has no name. -/
def ownTag? : Option Tag → Option String
  | none | some [] => none
  | some (b :: bs) =>
    if b = '!'.toUInt8 then String.fromUTF8? ⟨(if bs = [] then [b] else bs).toArray⟩ else none

end AttributeRegistry.Yaml
