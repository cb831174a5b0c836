import AttributeRegistry.Shape.Datum
import AttributeRegistry.Toml.Date

/-!
# TOML as data

What a value is called when it is not the one expected, and what it is as a datum.

A date is a table with a single key where a table is expected, and a text as a datum. Conversely, a
table whose first key is that of dates is the date its value spells; its other entries do not count.
-/

namespace AttributeRegistry.Toml

/-! ## Refusals -/

/-- Why a value is refused, and where. -/
structure Refusal where
  message : String
  span : Option Span

/-- Refuses a value for a fault. -/
def Item.refuse {α : Type} (i : Item) (f : Fault) : Except Refusal α :=
  .error ⟨f.message .plain, i.span⟩

/-- Refuses a value in other words. -/
def Item.refuseWith {α : Type} (i : Item) (message : String) : Except Refusal α :=
  .error ⟨message, i.span⟩

/-- Points at a part of the text unless the refusal points at one already. -/
def pointing {α : Type} (span : Option Span) (x : Except Refusal α) : Except Refusal α :=
  x.mapError fun r => { r with span := r.span <|> span }

/-- What a value is called where another one is expected. -/
def Item.found : Item → Found
  | .scalar (.text s) _ => .text s
  | .scalar (.int n) _ => .integer n
  | .scalar (.float x) _ => .float x
  | .scalar (.flag b) _ => .bool b
  | .scalar (.date _) _ => .map
  | .array _ _ => .sequence
  | .table _ => .map
  | .tables _ => .sequence

/-- Refuses a value of another type. -/
def Item.mismatch {α : Type} (i : Item) (expected : String) : Except Refusal α :=
  i.refuse (.invalidType i.found expected)

/-! ## Data -/

/-- The key of a date as a table. -/
def dateKey : String :=
  "$__toml_private_datetime"

/-- A value without parts as a datum. -/
def Scalar.toDatum : Scalar → Datum
  | .text s => .text s
  | .int n => .int n
  | .float x => .float x
  | .flag b => .bool b
  | .date s => .text s

/-- The date a value spells. -/
def Item.spelledDate (i : Item) : Except Refusal Datum :=
  match i with
  | .scalar (.text s) _ =>
    match dateOf? s with
    | some date => .ok (.text date)
    | none => i.refuseWith "failed to parse datetime"
  | i => i.mismatch "string containing a datetime"

mutual

/-- A value as a datum. -/
def Item.toDatum : Item → Except Refusal Datum
  | .scalar v _ => .ok v.toDatum
  | .array items _ => do return .list (← itemsData items)
  | .table t => t.toDatum
  | .tables ts => do return .list (← tablesData ts)

/-- A table as a datum. -/
def Table.toDatum : Table → Except Refusal Datum
  | .mk _ _ entries =>
    match entries.head? with
    | some (k, i) =>
      if k.name = dateKey then pointing (some k.span) i.spelledDate
      else do return .dict (← entriesData entries)
    | none => .ok (.dict [])

/-- Each value as a datum. -/
def itemsData : List Item → Except Refusal (List Datum)
  | [] => .ok []
  | i :: is => do return (← i.toDatum) :: (← itemsData is)

/-- Each table as a datum. -/
def tablesData : List Table → Except Refusal (List Datum)
  | [] => .ok []
  | t :: ts => do return (← t.toDatum) :: (← tablesData ts)

/-- Each entry as a datum under a text. -/
def entriesData : List (Key × Item) → Except Refusal (List (Datum × Datum))
  | [] => .ok []
  | (k, i) :: es => do return (.text k.name, ← i.toDatum) :: (← entriesData es)

end

end AttributeRegistry.Toml
