import AttributeRegistry.Decimal.Layout
import AttributeRegistry.Decimal.Parse
import AttributeRegistry.Shape.Basic
import AttributeRegistry.Text.Case

/-!
# Layers of settings

Settings come in layers, each over the ones before: what a later layer says replaces what an earlier
one says, except that tables are merged entry by entry. Names are stored in small letters.

A value remembers the layer it comes from. Reading one by a shape is lenient: where a text is
expected a number or a flag will do, and where a flag is expected a number or one of a few words.
-/

namespace AttributeRegistry

/-- A value in a layer. Values know their origin; a table that several layers may contribute to has
none. -/
inductive Setting where
  | absent
  | flag (origin : String) (b : Bool)
  | int (origin : String) (n : Int)
  | float (origin : String) (x : Float)
  | text (origin : String) (s : String)
  | list (origin : Option String) (items : List Setting)
  | table (origin : Option String) (entries : List (String × Setting))
deriving Inhabited

namespace Setting

/-- A table without entries that several layers may contribute to. -/
def empty : Setting :=
  table none []

/-- The layer a value comes from. -/
def origin : Setting → Option String
  | absent => none
  | flag origin _ => some origin
  | int origin _ => some origin
  | float origin _ => some origin
  | text origin _ => some origin
  | list origin _ => origin
  | table origin _ => origin

mutual

/-- A datum as a value of a layer. -/
def ofDatum (origin : String) : Datum → Setting
  | .null => absent
  | .bool b => flag origin b
  | .int n => int origin n
  | .float x => float origin x
  | .text s => text origin s
  | .list items => list origin (ofData origin items)
  | .dict entries => table origin (ofEntries origin entries)

/-- Each datum as a value of a layer. -/
def ofData (origin : String) : List Datum → List Setting
  | [] => []
  | d :: ds => ofDatum origin d :: ofData origin ds

/-- Each entry as an entry of a layer. -/
def ofEntries (origin : String) : List (Datum × Datum) → List (String × Setting)
  | [] => []
  | (k, d) :: es => (k.text?.getD "", ofDatum origin d) :: ofEntries origin es

end

/-! ## Merging -/

/-- A name without regard to case. -/
def fold (name : String) : String :=
  Text.lower name

/-- Exchanges the value of a name among some entries, or adds it behind them. -/
def store (name : String) (v : Setting) : List (String × Setting) → List (String × Setting)
  | [] => [(name, v)]
  | (n, w) :: es => if n = name then (n, v) :: es else (n, w) :: store name v es

/-- The entries of a table; whatever is no table has none. -/
def entries : Setting → List (String × Setting)
  | table _ es => es
  | _ => []

/-- The entry of a name. -/
def get? (t : Setting) (name : String) : Option Setting :=
  t.entries.lookup name

/-- Exchanges the value of a name; whatever is no table becomes one. -/
def set (t : Setting) (name : String) (v : Setting) : Setting :=
  match t with
  | table origin es => table origin (store name v es)
  | _ => table none [(name, v)]

mutual

/-- Puts a value under a name, over what is there. -/
def put (t : Setting) (name : String) : Setting → Setting
  | table _ es => t.set (fold name) (putAll ((t.get? (fold name)).getD empty) es)
  | v => t.set (fold name) v

/-- Puts entries into a table, one after the other. -/
def putAll (t : Setting) : List (String × Setting) → Setting
  | [] => t
  | (name, v) :: es => putAll (put t name v) es

end

/-! ## Paths -/

/-- A step to a part of a value. A place in a list that is negative counts from the end. -/
inductive Step where
  | name (s : String)
  | index (i : Int)
deriving DecidableEq, Repr

/-- The characters of names in paths. -/
def isNameChar (c : Char) : Bool :=
  c.isAlphanum || c = ' ' || c = '_' || c = '-'

/-- The items of a list; whatever is no list has none. -/
def items : Setting → List Setting
  | list _ is => is
  | _ => []

/-- The place in a list of some length that a step leads to; the first one is as far back as any. -/
def placeIn (length : Nat) (i : Int) : Nat :=
  if i < 0 then (length + i).toNat else i.toNat

/-- Exchanges the item at a place; whatever is no list becomes one, and grows as needed. -/
def setItem (t : Setting) (i : Nat) (v : Setting) : Setting :=
  let is := t.items
  let origin := match t with
    | list origin _ => origin
    | _ => none
  list origin ((is ++ List.replicate (i + 1 - is.length) absent).set i v)

/-- Changes the part of a value that some steps lead to. -/
def change (f : Setting → Setting) : List Step → Setting → Setting
  | [], t => f t
  | .name s :: steps, t => t.set (fold s) (change f steps ((t.get? (fold s)).getD absent))
  | .index i :: steps, t =>
    let i := placeIn t.items.length i
    t.setItem i (change f steps (t.items[i]?.getD absent))

/-- Puts a value over the part that some steps and a last one lead to. -/
def putAt (t : Setting) (steps : List Step) (last : Step) (v : Setting) : Setting :=
  change
    (fun part =>
      match last with
      | .name s => part.put s v
      | .index i => part.setItem (placeIn part.items.length i) v)
    steps t

/-- A space or a tab. -/
def isBlank (c : Char) : Bool :=
  c = ' ' || c = '\t'

/-- The place in a list that a text between brackets stands for: an integer without a plus sign, and
perhaps blanks around it. -/
def index? (cs : List Char) : Option Int :=
  let trimmed := ((cs.dropWhile isBlank).reverse.dropWhile isBlank).reverse
  if trimmed.head? = some '+' then none else Decimal.int64? trimmed

/-- The further steps of a path, each behind a period or between brackets. -/
def moreSteps? (cs : List Char) : Option (List Step) :=
  match cs with
  | [] => some []
  | '.' :: rest =>
    let name := rest.takeWhile isNameChar
    if name.isEmpty then none
    else do return .name (String.ofList name) :: (← moreSteps? (rest.dropWhile isNameChar))
  | '[' :: rest =>
    match _h : rest.dropWhile (· ≠ ']') with
    | _ :: after => do return .index (← index? (rest.takeWhile (· ≠ ']'))) :: (← moreSteps? after)
    | [] => none
  | _ => none
termination_by cs.length
decreasing_by
  · have := (List.dropWhile_sublist isNameChar (l := rest)).length_le
    simp only [List.length_cons]
    omega
  · have := (List.dropWhile_sublist (· ≠ ']') (l := rest)).length_le
    simp only [_h, List.length_cons] at this
    simp only [List.length_cons]
    omega

/-- The steps of a path and its last step: names with periods between them, and numbers between
brackets behind them. -/
def steps? (path : String) : Option (List Step × Step) := do
  let cs := path.toList
  let name := cs.takeWhile isNameChar
  if name.isEmpty then none
  else
    let steps := .name (String.ofList name) :: (← moreSteps? (cs.dropWhile isNameChar))
    return (steps.dropLast, ← steps.getLast?)

/-- Puts a layer's entries over what is there, in the order they are listed in. A name that is a path
leads to a part. -/
def putLayer (t : Setting) (layer : List (String × Setting)) : Setting :=
  layer.foldl
    (fun t (name, v) =>
      match steps? name with
      | some (steps, last) => t.putAt steps last v
      | none => t.put name v)
    t

end Setting

/-! ## Reading -/

namespace Setting

/-- Why a value is refused. -/
inductive Refusal where
  | fault (f : Fault)
  /-- The value cannot be converted. `key` is where it is, as far as known. -/
  | inconvertible (found : Found) (expected : String) (key : Option String) (origin : Option String)
  | noConstructor (choice name : String)
  | noName (choice : String)

/-- The wording of a refusal. -/
def Refusal.message : Refusal → String
  | .fault f => f.message .plain
  | .inconvertible found expected key origin =>
    (Fault.invalidType found expected).message .plain
      ++ (match key with
        | some key => " for key " ++ backquoted key
        | none => "")
      ++ (match origin with
        | some origin => " in " ++ origin
        | none => "")
  | .noConstructor choice name =>
    "enum " ++ choice ++ " does not have variant constructor " ++ name
  | .noName choice =>
    "value of enum " ++ choice
      ++ " should be represented by either string or table with exactly one key"

/-- Puts a name in front of where a value is. -/
def Refusal.under (name : String) : Refusal → Refusal
  | .inconvertible found expected key origin =>
    let key := key.getD ""
    let dot := if key.isEmpty || key.startsWith "[" then "" else "."
    .inconvertible found expected (some (name ++ dot ++ key)) origin
  | r => r

/-- Puts an index in front of where a value is. -/
def Refusal.at (index : Nat) : Refusal → Refusal
  | .inconvertible found expected key origin =>
    .inconvertible found expected (some ("[" ++ toString index ++ "]" ++ key.getD "")) origin
  | r => r

/-- What a value is called where another one is expected. -/
def found : Setting → Found
  | absent => .null
  | flag _ b => .bool b
  | int _ n => .integer n
  | float _ x => .float x
  | text _ s => .text s
  | list _ _ => .sequence
  | table _ _ => .map

/-- Refuses a value of another type. -/
def mismatch {α : Type} (v : Setting) (expected : String) : Except Refusal α :=
  .error (.fault (.invalidType v.found expected))

/-- Refuses a value that cannot be converted. -/
def refuse {α : Type} (v : Setting) (found : Found) (expected : String) : Except Refusal α :=
  .error (.inconvertible found expected none v.origin)

/-- A value as a text. -/
def toText (v : Setting) : Except Refusal String :=
  match v with
  | text _ s => .ok s
  | flag _ b => .ok (toString b)
  | int _ n => .ok (toString n)
  | float _ x => .ok (Decimal.write Decimal.plainLayout x)
  | v => v.refuse v.found "a string"

/-- A value as a flag. -/
def toFlag (v : Setting) : Except Refusal Bool :=
  match v with
  | flag _ b => .ok b
  | int _ n => .ok (n != 0)
  | float _ x => .ok (x != 0)
  | text _ s =>
    let s := fold s
    if ["1", "true", "on", "yes"].contains s then .ok true
    else if ["0", "false", "off", "no"].contains s then .ok false
    else v.refuse (.text s) "a boolean"
  | v => v.refuse v.found "a boolean"

/-- The case of a choice that a name stands for, whatever its case. -/
def pickNamed {α : Type} (choice : String) (cases : List (String × α)) (name : String) :
    Except Refusal α :=
  match cases.find? fun c => fold c.1 = fold name with
  | some c => .ok c.2
  | none => .error (.noConstructor choice name)

/-- The case of a choice a value stands for: its name, or a table with one entry under its name. -/
def pick {α : Type} (choice : String) (cases : List (String × α)) : Setting → Except Refusal α
  | text _ s => pickNamed choice cases s
  | table _ [(name, _)] => pickNamed choice cases name
  | _ => .error (.noName choice)

mutual

/-- A value as a datum. -/
def toDatum : Setting → Datum
  | absent => .null
  | flag _ b => .bool b
  | int _ n => .int n
  | float _ x => .float x
  | text _ s => .text s
  | list _ is => .list (toData is)
  | table _ es => .dict (toEntries es)

/-- Each value as a datum. -/
def toData : List Setting → List Datum
  | [] => []
  | v :: vs => v.toDatum :: toData vs

/-- Each entry as a datum under a text. -/
def toEntries : List (String × Setting) → List (Datum × Datum)
  | [] => []
  | (k, v) :: es => (.text k, v.toDatum) :: toEntries es

end

end Setting

open Setting

mutual

/-- The value a setting of a shape stands for. -/
def Shape.readSetting {α : Type} (s : Shape α) (v : Setting) : Except Refusal α :=
  match s with
  | .text => v.toText
  | .flag => v.toFlag
  | .parsed _ parse => do
    match parse (← v.toText) with
    | .ok a => return a
    | .error reason => throw (.fault (.refused reason))
  | .optional s =>
    match v with
    | .absent => .ok none
    | v => do return some (← s.readSetting v)
  | .list s =>
    match v with
    | .list _ items => items.zipIdx.mapM fun (v, i) => (s.readSetting v).mapError (Refusal.at i)
    | v => v.mismatch "a sequence"
  | .choice name cases => v.pick name cases
  | .untagged name pick =>
    match pick v.toDatum with
    | some a => .ok a
    | none => .error (.fault (.noVariant name))
  | .record name strict fields make =>
    match v with
    | .table _ entries => do
      let slots ← entries.foldlM
        (fun slots e => (fields.readSettingEntry strict fields.names e.1 e.2 slots).mapError
          (Refusal.under e.1))
        fields.empty
      return make (← (fields.finish slots).mapError .fault)
    | .list _ items => do
      return make (← fields.readSettingItems (Shape.positional name fields.names.length) 0 items)
    | v => v.mismatch ("struct " ++ name)

/-- Takes an entry into its slot. -/
def Fields.readSettingEntry {ρ σ : Type} (fields : Fields ρ σ) (strict : Bool)
    (known : List String) (name : String) (v : Setting) (slots : σ) : Except Refusal σ :=
  match fields, slots with
  | .nil, () => if strict then .error (.fault (.unknownField name known)) else .ok ()
  | .cons n _ s rest, (slot, slots) =>
    if n = name then do return (some (← s.readSetting v), slots)
    else do return (slot, ← rest.readSettingEntry strict known name v slots)

/-- The fields given by position. -/
def Fields.readSettingItems {ρ σ : Type} (fields : Fields ρ σ) (expected : String) (index : Nat)
    (items : List Setting) : Except Refusal ρ :=
  match fields with
  | .nil => .ok ()
  | .cons _ fallback s rest =>
    match items, fallback with
    | v :: vs, _ => do
      let a ← (s.readSetting v).mapError (Refusal.at index)
      return (a, ← rest.readSettingItems expected (index + 1) vs)
    | [], some a => do return (a, ← rest.readSettingItems expected (index + 1) [])
    | [], none => .error (.fault (.invalidLength index expected))

end

end AttributeRegistry
