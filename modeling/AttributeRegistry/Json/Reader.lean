import AttributeRegistry.Json.Skip
import AttributeRegistry.Shape.Basic

/-!
# Reading JSON

`Json.value` reads any value; `Shape.readJson` reads the value that has a shape, and
`Json.decode` reads a whole text by a shape. Arrays and objects nest at most 127 deep.

A record is an object, or an array that gives its fields by position.
-/

namespace AttributeRegistry.Json

/-- How deep arrays and objects may nest. -/
def maxDepth : Nat := 127

/-! ## The insides of arrays and objects -/

/-- Whether an array goes on with an item, and the text at that item or at the array's end. -/
def nextItem (first : Bool) (cs : List Char) : Except Failure (Bool × List Char) :=
  match skipGap cs with
  | [] => failAt .eofInList []
  | ']' :: rest => .ok (false, ']' :: rest)
  | c :: rest =>
    if first then .ok (true, c :: rest)
    else if c = ',' then
      match skipGap rest with
      | [] => failAt .eofInValue []
      | ']' :: rest => failAhead .trailingComma (']' :: rest) 1
      | rest => .ok (true, rest)
    else failAhead .expectedItemEnd (c :: rest) 1

/-- The items of an array up to its end. -/
def items {α : Type} (item : Reader α) (first : Bool) (cs : List Char) :
    Except Failure (List α × List Char) := do
  let (more, rest) ← nextItem first cs
  if more then
    let (a, rest) ← item rest
    if rest.length < cs.length then
      let (as, rest) ← items item false rest
      return (a :: as, rest)
    else return ([a], rest)
  else return ([], rest)
termination_by cs.length

/-- The end of an array. -/
def endArray (cs : List Char) : Except Failure (Unit × List Char) :=
  match skipGap cs with
  | [] => failAt .eofInList []
  | ']' :: rest => .ok ((), rest)
  | ',' :: rest =>
    match skipGap rest with
    | ']' :: rest => failAhead .trailingComma (']' :: rest) 1
    | rest => failAhead .trailingCharacters rest 1
  | rest => failAhead .trailingCharacters rest 1

/-- The name of an object's next member and the text behind it, or the text at the object's end. -/
def nextKey (first : Bool) (cs : List Char) : Except Failure (Option String × List Char) :=
  let named (cs : List Char) : Except Failure (Option String × List Char) := do
    let (key, rest) ← readString cs
    return (some key, rest)
  match skipGap cs with
  | [] => failAt .eofInObject []
  | '\x7d' :: rest => .ok (none, '\x7d' :: rest)
  | c :: rest =>
    if first then
      if c = '"' then named rest else failAhead .keyNotString (c :: rest) 1
    else if c = ',' then
      match skipGap rest with
      | [] => failAt .eofInValue []
      | '"' :: rest => named rest
      | '\x7d' :: rest => failAhead .trailingComma ('\x7d' :: rest) 1
      | rest => failAhead .keyNotString rest 1
    else failAhead .expectedMemberEnd (c :: rest) 1

/-- The colon between a member's name and its value. -/
def readColon (cs : List Char) : Except Failure (Unit × List Char) :=
  match skipGap cs with
  | [] => failAt .eofInObject []
  | ':' :: rest => .ok ((), rest)
  | rest => failAhead .expectedColon rest 1

/-- The members of an object up to its end, taken into a state one by one; `member` reads from
behind a member's name. -/
def members {σ : Type} (member : String → σ → Reader σ) (first : Bool) (state : σ)
    (cs : List Char) : Except Failure (σ × List Char) := do
  match ← nextKey first cs with
  | (none, rest) => return (state, rest)
  | (some key, rest) =>
    let (state, rest) ← member key state rest
    if rest.length < cs.length then members member false state rest
    else return (state, rest)
termination_by cs.length

/-- The end of an object. -/
def endObject (cs : List Char) : Except Failure (Unit × List Char) :=
  match skipGap cs with
  | [] => failAt .eofInObject []
  | '\x7d' :: rest => .ok ((), rest)
  | ',' :: rest => failAhead .trailingComma (',' :: rest) 1
  | rest => failAhead .trailingCharacters rest 1

/-- Leaves an array or object: a failure without a place gets the place behind its end, if that can
be read, and otherwise the place where the reader stopped. -/
def leaving {α : Type} (close : Reader Unit) (inside : Except Failure (α × List Char)) :
    Except Failure (α × List Char) :=
  match inside with
  | .ok (a, rest) => do
    let (_, rest) ← close rest
    return (a, rest)
  | .error f =>
    match f.mark with
    | some _ => .error f
    | none =>
      let rest := match close f.rest with
        | .ok (_, rest) => rest
        | .error e => e.rest
      .error { f with rest := rest, mark := some ⟨rest, 0⟩ }

/-! ## Any value -/

/-- Any value, with at most `depth` levels of nesting. -/
def value (depth : Nat) (cs : List Char) : Except Failure (Json × List Char) :=
  match skipGap cs with
  | [] => failAt .eofInValue []
  | 'n' :: rest => do
    let (_, rest) ← readWord "ull".toList rest
    return (.null, rest)
  | 't' :: rest => do
    let (_, rest) ← readWord "rue".toList rest
    return (.bool true, rest)
  | 'f' :: rest => do
    let (_, rest) ← readWord "alse".toList rest
    return (.bool false, rest)
  | '-' :: rest => readNumber false rest
  | '"' :: rest => do
    let (s, rest) ← readString rest
    return (.str s, rest)
  | '[' :: rest =>
    match depth with
    | 0 => failAhead .tooDeep ('[' :: rest) 1
    | depth + 1 => do
      let (vs, rest) ← leaving endArray (items (value depth) true rest)
      return (.arr vs, rest)
  | '\x7b' :: rest =>
    match depth with
    | 0 => failAhead .tooDeep ('\x7b' :: rest) 1
    | depth + 1 => do
      let member (key : String) (ms : List (String × Json)) : Reader (List (String × Json)) :=
        fun cs => do
          let (_, rest) ← readColon cs
          let (v, rest) ← value depth rest
          return ((key, v) :: ms, rest)
      let (ms, rest) ← leaving endObject (members member true [] rest)
      return (.obj ms.reverse, rest)
  | c :: rest =>
    if c.isDigit then readNumber true (c :: rest) else failAhead .expectedValue (c :: rest) 1

/-! ## A value of another shape -/

/-- What a value that cannot be used is, for the message. -/
def foundOf : Json → Found
  | .null => .null
  | .bool b => .bool b
  | .int n => .integer n
  | .float x => .float x
  | .str s => .text s
  | .arr _ => .sequence
  | .obj _ => .map

/-- The failure of a value of another type. A container is not looked into. -/
def unexpected {α : Type} (expected : String) (cs : List Char) : Except Failure α :=
  match cs with
  | '[' :: _ => faultAt (.invalidType .sequence expected) cs
  | '\x7b' :: _ => faultAt (.invalidType .map expected) cs
  | cs =>
    match value 0 cs with
    | .ok (v, rest) => faultAt (.invalidType (foundOf v) expected) rest
    | .error f => .error f

/-- A text, or the failure of anything else. -/
def readText (expected : String) (cs : List Char) : Except Failure (String × List Char) :=
  match skipGap cs with
  | [] => failAt .eofInValue []
  | '"' :: rest => readString rest
  | rest => unexpected expected rest

/-- The null value, or the failure of anything else. -/
def readNull (expected : String) (cs : List Char) : Except Failure (Unit × List Char) :=
  match skipGap cs with
  | [] => failAt .eofInValue []
  | 'n' :: rest => readWord "ull".toList rest
  | rest => unexpected expected rest

/-- A name among the cases of a choice; a lone member of an object may stand for its name. -/
def readChoice {α : Type} (cases : List (String × α)) (depth : Nat) (cs : List Char) :
    Except Failure (α × List Char) :=
  let named (cs : List Char) : Except Failure (α × List Char) := do
    let (s, rest) ← readText "variant identifier" cs
    match Shape.pickCase cases s with
    | .ok a => return (a, rest)
    | .error f => faultAt f rest
  match skipGap cs with
  | [] => failAt .eofInValue []
  | '"' :: rest => named ('"' :: rest)
  | '\x7b' :: rest => do
    if depth = 0 then failAhead .tooDeep ('\x7b' :: rest) 1
    let (a, rest) ← named rest
    let (_, rest) ← readColon rest
    let (_, rest) ← readNull "unit" rest
    match skipGap rest with
    | '\x7d' :: rest => return (a, rest)
    | [] => failAt .eofInObject []
    | rest => failAt .expectedValue rest
  | rest => failAhead .expectedValue rest 1

/-- A list of values of one kind. -/
def readList {α : Type} (item : Nat → Reader α) (depth : Nat) (cs : List Char) :
    Except Failure (List α × List Char) :=
  match skipGap cs with
  | [] => failAt .eofInValue []
  | '[' :: rest =>
    match depth with
    | 0 => failAhead .tooDeep ('[' :: rest) 1
    | depth + 1 => leaving endArray (items (item depth) true rest)
  | rest => unexpected "a sequence" rest

/-- A record, by name or by position. -/
def readRecord {α : Type} (name : String) (byName byPosition : Nat → Reader α) (depth : Nat)
    (cs : List Char) : Except Failure (α × List Char) :=
  match skipGap cs with
  | [] => failAt .eofInValue []
  | '[' :: rest =>
    match depth with
    | 0 => failAhead .tooDeep ('[' :: rest) 1
    | depth + 1 => leaving endArray (byPosition depth rest)
  | '\x7b' :: rest =>
    match depth with
    | 0 => failAhead .tooDeep ('\x7b' :: rest) 1
    | depth + 1 => leaving endObject (byName depth rest)
  | rest => unexpected ("struct " ++ name) rest

end AttributeRegistry.Json

namespace AttributeRegistry

open Json

mutual

/-- Reads a value that has a shape. -/
def Shape.readJson {α : Type} (s : Shape α) (depth : Nat) : Reader α := fun cs =>
  match s with
  | .text => readText "a string" cs
  | .flag =>
    match skipGap cs with
    | [] => failAt .eofInValue []
    | 't' :: rest => do
      let (_, rest) ← readWord "rue".toList rest
      return (true, rest)
    | 'f' :: rest => do
      let (_, rest) ← readWord "alse".toList rest
      return (false, rest)
    | rest => unexpected "a boolean" rest
  | .parsed expected parse => do
    let (text, rest) ← readText expected cs
    match parse text with
    | .ok a => return (a, rest)
    | .error reason => faultAt (.refused reason) rest
  | .optional s =>
    match skipGap cs with
    | 'n' :: rest => do
      let (_, rest) ← readWord "ull".toList rest
      return (none, rest)
    | rest => do
      let (a, rest) ← s.readJson depth rest
      return (some a, rest)
  | .list s => readList (fun depth => s.readJson depth) depth cs
  | .choice _ cases => readChoice cases depth cs
  | .untagged name pick => do
    let (v, rest) ← value depth cs
    match pick v.toDatum with
    | some a => return (a, rest)
    | none => fault (.noVariant name) rest
  | .record name strict fields make =>
    let known := fields.names
    let stranger (key : String) : Reader Unit := fun rest =>
      if strict then fault (.unknownField key known) rest else do
        let (_, rest) ← readColon rest
        skipValue rest
    let byName (depth : Nat) : Reader _ := fun rest => do
      let (slots, rest) ← members (fun key slots => fields.readJsonMember depth key (stranger key) slots)
        true fields.empty rest
      match fields.finish slots with
      | .ok values => return (make values, rest)
      | .error f => fault f rest
    let byPosition (depth : Nat) : Reader _ := fun rest => do
      let (values, rest) ← fields.readJsonItems depth (Shape.positional name known.length) 0 rest
      return (make values, rest)
    readRecord name byName byPosition depth cs

/-- Reads the value of the member with the given name into its slot, from behind the name. -/
def Fields.readJsonMember {ρ σ : Type} (fields : Fields ρ σ) (depth : Nat) (key : String)
    (stranger : Reader Unit) (slots : σ) : Reader σ := fun cs =>
  match fields, slots with
  | .nil, () => stranger cs
  | .cons name _ s rest, (slot, slots) =>
    if name = key then
      match slot with
      | some _ => fault (.duplicateField name) cs
      | none => do
        let (_, cs) ← readColon cs
        let (a, cs) ← s.readJson depth cs
        return ((some a, slots), cs)
    else do
      let (slots, cs) ← rest.readJsonMember depth key stranger slots cs
      return ((slot, slots), cs)

/-- Reads the fields by position; `index` counts those before. -/
def Fields.readJsonItems {ρ σ : Type} (fields : Fields ρ σ) (depth : Nat) (expected : String)
    (index : Nat) : Reader ρ := fun cs =>
  match fields with
  | .nil => .ok ((), cs)
  | .cons _ absent s rest => do
    let (more, cs) ← nextItem (index = 0) cs
    if more then
      let (a, cs) ← s.readJson depth cs
      let (as, cs) ← rest.readJsonItems depth expected (index + 1) cs
      return ((a, as), cs)
    else
      match absent with
      | some a => do
        let (as, cs) ← rest.readJsonItems depth expected (index + 1) cs
        return ((a, as), cs)
      | none => fault (.invalidLength index expected) cs

end

namespace Json

/-- The value a whole text stands for. -/
def decodeChars {α : Type} (s : Shape α) (text : List Char) : Except Failure α := do
  let (a, rest) ← s.readJson maxDepth text
  match skipGap rest with
  | [] => return a
  | rest => failAhead .trailingCharacters rest 1

/-- The value a whole text stands for, or why there is none. -/
def decode {α : Type} (s : Shape α) (text : String) : Except String α :=
  (decodeChars s text.toList).mapError (Failure.message text.toList)

/-- The JSON value of a whole text, or why there is none. -/
def parse (text : String) : Except String Json :=
  let go : Except Failure Json := do
    let (v, rest) ← value maxDepth text.toList
    match skipGap rest with
    | [] => return v
    | rest => failAhead .trailingCharacters rest 1
  go.mapError (Failure.message text.toList)

end Json

end AttributeRegistry
