import AttributeRegistry.Shape.Basic
import AttributeRegistry.Yaml.Core

/-!
# Reading YAML

`Shape.readYaml` reads the part of a document that has a shape, `Yaml.decode` a whole text. A fault
is reported at the item it was found in, or at the sequence or mapping around that item, together
with the path that leads there.

Sequences and mappings nest at most 128 deep, also through aliases, and a document follows at most a
hundred aliases for each of its items.
-/

namespace AttributeRegistry.Yaml

/-! ## Errors -/

/-- The way from the whole document to a part of it. -/
inductive Path where
  | root
  | item (parent : Path) (index : Nat)
  | entry (parent : Path) (key : String)
  /-- An entry whose key is no scalar. -/
  | unknown (parent : Path)
deriving Repr

/-- A path as text. -/
def Path.text : Path → String
  | .root => "."
  | .item parent index => parent.text ++ "[" ++ toString index ++ "]"
  | .entry .root key => key
  | .entry parent key => parent.text ++ "." ++ key
  | .unknown .root => "?"
  | .unknown parent => parent.text ++ ".?"

/-- Why a text is refused. -/
inductive Error where
  | ending (e : Ending)
  | endOfText
  | severalDocuments
  | tooDeep (place : Mark)
  | tooManyAliases
  /-- A fault, and where it is reported once that is known. -/
  | shape (fault : Fault) (place : Option (Mark × Path))

/-- The wording of an error. -/
def Error.message : Error → String
  | .ending (.syntactic f) => f.message
  | .ending (.unknownAnchor place) => "unknown anchor" ++ place.phrase
  | .endOfText => "EOF while parsing a value"
  | .severalDocuments =>
    "deserializing from YAML containing more than one document is not supported"
  | .tooDeep place => "recursion limit exceeded" ++ place.phrase
  | .tooManyAliases => "repetition limit exceeded"
  | .shape f none => f.message .plain
  | .shape f (some (place, .root)) => f.message .plain ++ place.phrase
  | .shape f (some (place, path)) => path.text ++ ": " ++ f.message .plain ++ place.phrase

/-- Gives a fault a place unless it has one. -/
def Error.at (place : Mark) (path : Path) : Error → Error
  | .shape f none => .shape f (some (place, path))
  | e => e

/-- Fails with a fault whose place is still open. -/
def fault {α : Type} (f : Fault) : Except Error α :=
  .error (.shape f none)

/-! ## Items one by one -/

/-- Where a reader is. -/
structure State where
  /-- The items ahead. -/
  rest : List Placed
  /-- How many aliases were followed. -/
  jumps : Nat

namespace Document

/-- The next item and the state behind it. -/
def next (doc : Document) (st : State) : Except Error (Placed × State) :=
  match st.rest with
  | p :: rest => .ok (p, { st with rest })
  | [] => .error (match doc.ending with
    | some e => .ending e
    | none => .endOfText)

/-- The state at the anchor with a number. -/
def jump (doc : Document) (anchor : Nat) (st : State) : Except Error State :=
  if doc.items.length * 100 < st.jumps + 1 then .error .tooManyAliases
  else .ok ⟨doc.items.drop ((doc.targets.lookup anchor).getD 0), st.jumps + 1⟩

/-- Reads the value at an item, or at the anchor of an alias; the reader gets the item and the state
behind it. -/
def atItem {α : Type} (doc : Document) (path : Path) (st : State)
    (read : Item → Mark → State → Except Error (α × State)) : Except Error (α × State) := do
  let ((item, place), behind) ← doc.next st
  let result := match item with
    | .aliasOf anchor => do
      let target ← doc.jump anchor behind
      let ((item, place), inner) ← doc.next target
      let (a, inner) ← (read item place inner).mapError (Error.at place path)
      return (a, { behind with jumps := inner.jumps })
    | item => read item place behind
  result.mapError (Error.at place path)

end Document

/-- The fault of an item of another kind. -/
def mismatch {α : Type} (item : Item) (expected : String) : Except Error α :=
  match item with
  | .scalar tag plain text =>
    match Value.ofScalar tag plain text with
    | .error f => fault f
    | .ok (.wide n width) => fault (.invalidType (.wide n width) expected)
    | .ok v => fault (.invalidType v.found expected)
  | .sequenceStart _ => fault (.invalidType .sequence expected)
  | .mappingStart _ => fault (.invalidType .map expected)
  | _ => .error .endOfText

/-- Whether an item stands for a collection without any items. -/
def Item.isEmpty : Item → Bool
  | .void => true
  | .scalar _ plain text => plain && text = ""
  | _ => false

/-! ## Collections -/

/-- One level further in. -/
def inside {α : Type} (depth : Nat) (place : Mark) (read : Nat → Except Error α) :
    Except Error α :=
  match depth with
  | 0 => .error (.tooDeep place)
  | depth + 1 => read depth

/-- The items of a sequence, and the state behind its end. -/
def readItems {α : Type} (doc : Document) (item : Nat → State → Except Error (α × State))
    (index : Nat) (st : State) : Except Error (List α × State) := do
  match ← doc.next st with
  | ((.sequenceEnd, _), st) => return ([], st)
  | _ =>
    let (a, st') ← item index st
    if st'.rest.length < st.rest.length then
      let (as, st') ← readItems doc item (index + 1) st'
      return (a :: as, st')
    else return ([a], st')
termination_by st.rest.length

/-- The entries of a mapping, taken into a state one by one, and the state behind its end. -/
def readEntries {σ : Type} (doc : Document) (entry : σ → State → Except Error (σ × State))
    (slots : σ) (st : State) : Except Error (σ × State) := do
  match ← doc.next st with
  | ((.mappingEnd, _), st) => return (slots, st)
  | _ =>
    let (slots, st') ← entry slots st
    if st'.rest.length < st.rest.length then readEntries doc entry slots st'
    else return (slots, st')
termination_by st.rest.length

/-- The path to the value of the entry ahead. -/
def entryPath (path : Path) (st : State) : Path :=
  match st.rest with
  | (.scalar _ _ text, _) :: _ => .entry path text
  | _ => .unknown path

/-- Skips an item with all it contains; `nesting` counts the collections that are open. -/
def skipItem (doc : Document) (nesting jumps : Nat) : List Placed → Except Error State
  | [] => .error (match doc.ending with
    | some e => .ending e
    | none => .endOfText)
  | (item, _) :: rest =>
    let go (nesting : Nat) : Except Error State :=
      if nesting = 0 then .ok ⟨rest, jumps⟩ else skipItem doc nesting jumps rest
    match item with
    | .sequenceStart _ | .mappingStart _ => go (nesting + 1)
    | .sequenceEnd | .mappingEnd => go (nesting - 1)
    | _ => go nesting

/-! ## Scalars -/

/-- A text; `check` refuses some. -/
def readText {α : Type} (doc : Document) (expected : String) (check : String → Except Fault α)
    (path : Path) (st : State) : Except Error (α × State) :=
  doc.atItem path st fun item _ st =>
    match item with
    | .scalar _ _ text =>
      match check text with
      | .ok a => .ok (a, st)
      | .error f => fault f
    | item => mismatch item expected

/-- A boolean. -/
def readFlag (doc : Document) (path : Path) (st : State) : Except Error (Bool × State) :=
  doc.atItem path st fun item _ st =>
    match item with
    | .scalar _ true text =>
      match bool? text with
      | some b => .ok (b, st)
      | none => mismatch item "a boolean"
    | item => mismatch item "a boolean"

/-- Whether an item stands for a value that is there. -/
def Item.isPresent : Item → Except Error Bool
  | .scalar (some tag) true text =>
    if tag = standardTag "null" then
      if isNull text then .ok false else fault (.invalidValue (.text text) "null")
    else .ok true
  | .scalar none true text => .ok (text ≠ "" && !isNull text)
  | .void => .ok false
  | _ => .ok true

/-- The null value behind a tag that names a case. -/
def readUnit (item : Item) (st : State) : Except Error (Unit × State) :=
  match item with
  | .scalar _ plain text =>
    if plain && (text = "" || isNull text) then .ok ((), st)
    else fault (.invalidValue (.text text) "null")
  | item => mismatch item "unit"

/-- A name among the cases of a choice: a scalar, or the tag of an absent value. -/
def readChoice {α : Type} (doc : Document) (cases : List (String × α)) (path : Path) (st : State) :
    Except Error (α × State) := do
  let here (item : Item) (place : Mark) (st : State) : Except Error (α × State) :=
    let byTag (tag : Option Tag) (otherwise : Except Error (α × State)) :=
      match ownTag? tag with
      | none => otherwise
      | some name =>
        match Shape.pickCase cases name with
        | .error f => fault f
        | .ok a => do
          let (_, st) ← (readUnit item st).mapError (Error.at place path)
          return (a, st)
    let refuse (found : Found) : Except Error (α × State) :=
      .error ((Error.shape (.invalidType found "a YAML tag starting with '!'") none).at place path)
    match item with
    | .scalar tag _ text =>
      byTag tag <|
        match Shape.pickCase cases text with
        | .ok a => .ok (a, st)
        | .error f => .error ((Error.shape f none).at place path)
    | .sequenceStart tag => byTag tag (refuse .sequence)
    | .mappingStart tag => byTag tag (refuse .map)
    | _ => .error .endOfText
  let ((item, place), behind) ← doc.next st
  match item with
  | .aliasOf anchor => Except.mapError (Error.at place path) do
    let target ← doc.jump anchor behind
    let ((item, place), inner) ← doc.next target
    let (a, inner) ← here item place inner
    return (a, { behind with jumps := inner.jumps })
  | item => here item place behind

/-! ## Values of any kind -/

/-- Any value. -/
def readDatum (doc : Document) (depth : Nat) (path : Path) (st : State) :
    Except Error (Datum × State) :=
  doc.atItem path st fun item place st =>
    let tagged : Fault := .refused "untagged and internally tagged enums do not support enum input"
    match item with
    | .scalar tag plain text =>
      if (ownTag? tag).isSome then fault tagged
      else match Value.ofScalar tag plain text with
        | .error f => fault f
        | .ok .null => .ok (.null, st)
        | .ok (.bool b) => .ok (.bool b, st)
        | .ok (.int n) => .ok (.int n, st)
        | .ok (.wide n width) => fault (.invalidType (.wide n width) "any value")
        | .ok (.float x) => .ok (.float x, st)
        | .ok (.text s) => .ok (.text s, st)
    | .sequenceStart tag =>
      if (ownTag? tag).isSome then fault tagged
      else match depth with
        | 0 => .error (.tooDeep place)
        | depth + 1 => do
          let (vs, st) ← readItems doc (fun i st => readDatum doc depth (.item path i) st) 0 st
          return (.list vs, st)
    | .mappingStart tag =>
      if (ownTag? tag).isSome then fault tagged
      else match depth with
        | 0 => .error (.tooDeep place)
        | depth + 1 => do
          let entry (es : List (Datum × Datum)) (st : State) : Except Error (_ × State) := do
            let below := entryPath path st
            let (k, st) ← readDatum doc depth path st
            let (v, st) ← readDatum doc depth below st
            return ((k, v) :: es, st)
          let (es, st) ← readEntries doc entry [] st
          return (.dict es.reverse, st)
    | _ => .ok (.null, st)
termination_by structural depth

end AttributeRegistry.Yaml

namespace AttributeRegistry

open Yaml

mutual

/-- Reads the value of a shape. -/
def Shape.readYaml {α : Type} (s : Shape α) (doc : Yaml.Document) (depth : Nat) (path : Yaml.Path)
    (st : Yaml.State) : Except Yaml.Error (α × Yaml.State) :=
  match s with
  | .text => readText doc "a string" .ok path st
  | .flag => readFlag doc path st
  | .parsed expected parse =>
    readText doc expected (fun text => (parse text).mapError .refused) path st
  | .optional s => do
    let ((item, _), behind) ← doc.next st
    match item with
    | .aliasOf anchor =>
      let target ← doc.jump anchor behind
      let ((item, _), _) ← doc.next target
      if ← item.isPresent then
        let (a, inner) ← s.readYaml doc depth path target
        return (some a, { behind with jumps := inner.jumps })
      else return (none, { behind with jumps := target.jumps })
    | item =>
      if ← item.isPresent then
        let (a, st) ← s.readYaml doc depth path st
        return (some a, st)
      else return (none, behind)
  | .list s =>
    doc.atItem path st fun item place st =>
      match item with
      | .sequenceStart _ =>
        inside depth place fun depth =>
          readItems doc (fun i st => s.readYaml doc depth (.item path i) st) 0 st
      | item => if item.isEmpty then .ok ([], st) else mismatch item "a sequence"
  | .choice _ cases => readChoice doc cases path st
  | .untagged name pick => do
    let (d, st) ← readDatum doc depth path st
    match pick d with
    | some a => return (a, st)
    | none => fault (.noVariant name)
  | .record name strict fields make =>
    doc.atItem path st fun item place st =>
      let known := fields.names
      let finish (slots : _) : Except Yaml.Error _ :=
        match fields.finish slots with
        | .ok values => .ok (make values)
        | .error f => fault f
      let checkKey (key : String) : Except Fault String :=
        if strict && !known.contains key then .error (.unknownField key known) else .ok key
      match item with
      | .mappingStart _ =>
        inside depth place fun depth => do
          let entry (slots : _) (st : Yaml.State) := do
            let below := entryPath path st
            let (key, st) ← readText doc "field identifier" checkKey path st
            fields.readYamlEntry doc depth below key slots st
          let (slots, st) ← readEntries doc entry fields.empty st
          return (← finish slots, st)
      | item =>
        if item.isEmpty then do return (← finish fields.empty, st)
        else mismatch item ("struct " ++ name)

/-- Reads the value of the entry with the given key into its slot; the value of a key that no field
has is skipped. -/
def Fields.readYamlEntry {ρ σ : Type} (fields : Fields ρ σ) (doc : Yaml.Document) (depth : Nat)
    (path : Yaml.Path) (key : String) (slots : σ) (st : Yaml.State) :
    Except Yaml.Error (σ × Yaml.State) :=
  match fields, slots with
  | .nil, () => do return ((), ← skipItem doc 0 st.jumps st.rest)
  | .cons name _ s rest, (slot, slots) =>
    if name = key then
      match slot with
      | some _ => fault (.duplicateField name)
      | none => do
        let (a, st) ← s.readYaml doc depth path st
        return ((some a, slots), st)
    else do
      let (slots, st) ← rest.readYamlEntry doc depth path key slots st
      return ((slot, slots), st)

end

namespace Yaml

/-- The value a whole text stands for, or why there is none. -/
def decode {α : Type} (s : Shape α) (text : String) : Except String α :=
  let doc := Yaml.Document.load text
  let result : Except Yaml.Error α := do
    let (a, _) ← s.readYaml doc 128 .root ⟨doc.items, 0⟩
    if let some e := doc.ending then throw (.ending e)
    if doc.further then throw .severalDocuments
    return a
  result.mapError Yaml.Error.message

end Yaml

end AttributeRegistry
