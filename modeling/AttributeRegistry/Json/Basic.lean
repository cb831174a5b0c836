import AttributeRegistry.Decimal.Layout
import AttributeRegistry.Shape.Datum
import AttributeRegistry.Text.Hex

/-!
# JSON values

JSON values and their two written forms. The compact form has no blanks at all; checksums are taken
of it. The indented form puts every item and every member on a line of its own, two spaces further
in than what holds it.
-/

namespace AttributeRegistry

/-- A JSON value; the members of an object keep their order. -/
inductive Json where
  | null
  | bool (b : Bool)
  | int (n : Int)
  | float (x : Float)
  | str (s : String)
  | arr (items : List Json)
  | obj (members : List (String × Json))
deriving Inhabited

namespace Json

/-! ## Strings -/

/-- One character inside a JSON string. -/
def escapeChar (c : Char) : List Char :=
  if c = '"' then ['\\', '"']
  else if c = '\\' then ['\\', '\\']
  else if c = '\n' then ['\\', 'n']
  else if c = '\r' then ['\\', 'r']
  else if c = '\t' then ['\\', 't']
  else if c = '\x08' then ['\\', 'b']
  else if c = '\x0c' then ['\\', 'f']
  else if c.toNat < 0x20 then
    ['\\', 'u', '0', '0', Text.hexDigit (c.toNat / 16), Text.hexDigit (c.toNat % 16)]
  else [c]

/-- A JSON string, with its quotes. -/
def writeString (s : String) : List Char :=
  '"' :: s.toList.flatMap escapeChar ++ ['"']

/-! ## Compact form -/

mutual

/-- The compact form of a value. -/
def compact : Json → List Char
  | .null => "null".toList
  | .bool b => (toString b).toList
  | .int n => (toString n).toList
  | .float x => (Decimal.writeJson x).toList
  | .str s => writeString s
  | .arr items => '[' :: compactItems items ++ [']']
  | .obj members => '\x7b' :: compactMembers members ++ ['\x7d']

/-- The items of an array with commas between them. -/
def compactItems : List Json → List Char
  | [] => []
  | [v] => compact v
  | v :: vs => compact v ++ ',' :: compactItems vs

/-- The members of an object with commas between them. -/
def compactMembers : List (String × Json) → List Char
  | [] => []
  | [(k, v)] => writeString k ++ ':' :: compact v
  | (k, v) :: ms => writeString k ++ ':' :: compact v ++ ',' :: compactMembers ms

end

/-- The compact form as a string. -/
def toText (v : Json) : String :=
  String.ofList v.compact

/-! ## Indented form -/

/-- A line end and the indentation of a depth. -/
def newLine (depth : Nat) : List Char :=
  '\n' :: List.replicate (2 * depth) ' '

mutual

/-- The indented form of a value that stands at a depth. -/
def indented (depth : Nat) : Json → List Char
  | .arr [] => ['[', ']']
  | .arr items => '[' :: indentedItems (depth + 1) items ++ newLine depth ++ [']']
  | .obj [] => ['\x7b', '\x7d']
  | .obj members => '\x7b' :: indentedMembers (depth + 1) members ++ newLine depth ++ ['\x7d']
  | v => compact v

/-- The items of an array, each on a line of its own. -/
def indentedItems (depth : Nat) : List Json → List Char
  | [] => []
  | [v] => newLine depth ++ indented depth v
  | v :: vs => newLine depth ++ indented depth v ++ ',' :: indentedItems depth vs

/-- The members of an object, each on a line of its own. -/
def indentedMembers (depth : Nat) : List (String × Json) → List Char
  | [] => []
  | [(k, v)] => newLine depth ++ writeString k ++ ':' :: ' ' :: indented depth v
  | (k, v) :: ms =>
    newLine depth ++ writeString k ++ ':' :: ' ' :: indented depth v ++ ','
      :: indentedMembers depth ms

end

/-- The indented form as a string. -/
def toIndentedText (v : Json) : String :=
  String.ofList (v.indented 0)

/-! ## As data -/

mutual

/-- A JSON value as a datum. -/
def toDatum : Json → Datum
  | .null => .null
  | .bool b => .bool b
  | .int n => .int n
  | .float x => .float x
  | .str s => .text s
  | .arr items => .list (toData items)
  | .obj members => .dict (toEntries members)

/-- Each item as a datum. -/
def toData : List Json → List Datum
  | [] => []
  | v :: vs => toDatum v :: toData vs

/-- Each member as an entry under a text key. -/
def toEntries : List (String × Json) → List (Datum × Datum)
  | [] => []
  | (k, v) :: ms => (.text k, toDatum v) :: toEntries ms

end

/-- The member of a name, if the value is an object that has it. -/
def get? (key : String) : Json → Option Json
  | .obj members => members.lookup key
  | _ => none

end Json

end AttributeRegistry
