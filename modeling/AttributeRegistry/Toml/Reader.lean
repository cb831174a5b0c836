import AttributeRegistry.Shape.Basic
import AttributeRegistry.Toml.Data
import AttributeRegistry.Toml.Document

/-!
# Reading TOML

`Shape.readToml` reads a value that has a shape, and `Toml.decode` a whole text by a shape. A refusal
points at the innermost value that is one part of the text, or at its key.

A record is a table, or an array that gives its fields by position; what an array holds beyond them
does not count. A date counts as a table with a single key.
-/

namespace AttributeRegistry

namespace Toml

/-- The items of an array, or the tables under a header. -/
def Item.items? : Item → Option (List Item)
  | .array items _ => some items
  | .tables ts => some (ts.map Item.table)
  | _ => none

/-- The case of a choice that a name stands for. -/
def pickNamed {α : Type} (cases : List (String × α)) (name : String) (span : Option Span) :
    Except Refusal α :=
  match Shape.pickCase cases name with
  | .ok a => .ok a
  | .error f => .error ⟨f.message .plain, span⟩

/-- A value that says nothing beyond the name of a case. -/
def Item.requireEmpty (i : Item) : Except Refusal Unit :=
  match i with
  | .tables _ => i.refuseWith "expected empty array"
  | .array items _ => if items.isEmpty then .ok () else i.refuseWith "expected empty table"
  | .table t => if t.entries.isEmpty then .ok () else i.refuseWith "expected empty table"
  | .scalar _ _ => i.refuseWith ("expected table, found " ++ i.kindName)

/-- The case of a choice a value stands for: its name, or a table with one entry under its name. -/
def Item.pick {α : Type} (cases : List (String × α)) (i : Item) : Except Refusal α :=
  match i with
  | .scalar (.text s) span => pickNamed cases s (some span)
  | .table t =>
    match t.entries with
    | [] => i.refuseWith "wanted exactly 1 element, found 0 elements"
    | [(k, v)] => pointing i.span do
      let a ← pickNamed cases k.name (some k.span)
      v.requireEmpty
      return a
    | _ => i.refuseWith "wanted exactly 1 element, more than 1 element"
  | i => i.refuseWith "wanted string or table"

end Toml

open Toml

mutual

/-- The value a TOML value of a shape stands for. -/
def Shape.readToml {α : Type} (s : Shape α) (i : Item) : Except Refusal α :=
  match s with
  | .text =>
    match i with
    | .scalar (.text t) _ => .ok t
    | i => i.mismatch "a string"
  | .flag =>
    match i with
    | .scalar (.flag b) _ => .ok b
    | i => i.mismatch "a boolean"
  | .parsed expected parse =>
    match i with
    | .scalar (.text t) _ =>
      match parse t with
      | .ok a => .ok a
      | .error reason => i.refuse (.refused reason)
    | i => i.mismatch expected
  | .optional s => do return some (← s.readToml i)
  | .list s =>
    match i.items? with
    | some items => pointing i.span (items.mapM fun i => s.readToml i)
    | none => i.mismatch "a sequence"
  | .choice _ cases => i.pick cases
  | .untagged name pick => do
    match pick (← i.toDatum) with
    | some a => return a
    | none => i.refuse (.noVariant name)
  | .record name strict fields make =>
    match i with
    | .table t => pointing t.span do
      let slots ← t.entries.foldlM
        (fun slots e => pointing (e.2.span <|> some e.1.span)
          (fields.readTomlEntry strict fields.names e.1 e.2 slots))
        fields.empty
      match fields.finish slots with
      | .ok values => return make values
      | .error f => throw ⟨f.message .plain, none⟩
    | .scalar (.date d) span => pointing (some span) do
      let slots ← fields.readTomlEntry strict fields.names ⟨dateKey, span⟩ (.scalar (.text d) span)
        fields.empty
      match fields.finish slots with
      | .ok values => return make values
      | .error f => throw ⟨f.message .plain, none⟩
    | i =>
      match i.items? with
      | some items => pointing i.span do
        return make (← fields.readTomlItems (Shape.positional name fields.names.length) 0 items)
      | none => i.mismatch ("struct " ++ name)

/-- Takes an entry into its slot. -/
def Fields.readTomlEntry {ρ σ : Type} (fields : Fields ρ σ) (strict : Bool) (known : List String)
    (k : Key) (i : Item) (slots : σ) : Except Refusal σ :=
  match fields, slots with
  | .nil, () =>
    if strict then .error ⟨(Fault.unknownField k.name known).message .plain, some k.span⟩
    else .ok ()
  | .cons name _ s rest, (slot, slots) =>
    if name = k.name then do return (some (← s.readToml i), slots)
    else do return (slot, ← rest.readTomlEntry strict known k i slots)

/-- The fields given by position. -/
def Fields.readTomlItems {ρ σ : Type} (fields : Fields ρ σ) (expected : String) (index : Nat)
    (items : List Item) : Except Refusal ρ :=
  match fields with
  | .nil => .ok ()
  | .cons _ absent s rest =>
    match items, absent with
    | i :: is, _ => do
      let a ← s.readToml i
      return (a, ← rest.readTomlItems expected (index + 1) is)
    | [], some a => do return (a, ← rest.readTomlItems expected (index + 1) [])
    | [], none => .error ⟨(Fault.invalidLength index expected).message .plain, none⟩

end

namespace Toml

/-- What a failure in a text is reported as. -/
def Failure.report (text : List Char) (f : Failure) : String :=
  Toml.report text f.span f.message

/-- What a refusal of a value in a text is reported as. -/
def Refusal.report (text : List Char) (r : Refusal) : String :=
  match r.span with
  | some span => Toml.report text span r.message
  | none => r.message ++ "\n"

/-- The contents of a text as data. -/
def parse (text : String) : Except String Datum :=
  match document text.toList with
  | .error f => .error (f.report text.toList)
  | .ok t => t.toDatum.mapError (Refusal.report text.toList)

/-- The value a text stands for by a shape. -/
def decode {α : Type} (s : Shape α) (text : String) : Except String α :=
  match document text.toList with
  | .error f => .error (f.report text.toList)
  | .ok t =>
    match s.readToml (.table t) with
    | .ok a => .ok a
    | .error r => .error (r.report text.toList)

end Toml

end AttributeRegistry
