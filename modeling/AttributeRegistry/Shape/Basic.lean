import AttributeRegistry.Shape.Datum
import AttributeRegistry.Shape.Fault

/-!
# Shapes

A shape says what a part of a document has to look like, and which value it then stands for. Each
format (JSON, YAML, TOML, layered settings) reads a text *by a shape*, in its own order and with its
own positions; the shapes themselves know no format. A value `s : Shape α` describes the texts that
stand for values of type `α`.

The fields of a record are a list `Fields ρ σ`: `ρ` is the tuple of their values, and `σ` the tuple
of slots a reader fills in whatever order the document names the fields.
-/

namespace AttributeRegistry

mutual

/-- What a part of a document has to look like. -/
inductive Shape : Type → Type 1 where
  /-- Any text. -/
  | text : Shape String
  /-- `true` or `false`. -/
  | flag : Shape Bool
  /-- A text with a meaning; the parser's own words refuse it. -/
  | parsed {α : Type} (expected : String) (parse : String → Except String α) : Shape α
  /-- A value that may be absent. -/
  | optional {α : Type} (s : Shape α) : Shape (Option α)
  /-- A sequence. -/
  | list {α : Type} (s : Shape α) : Shape (List α)
  /-- One of several names. -/
  | choice {α : Type} (name : String) (cases : List (String × α)) : Shape α
  /-- Whatever `pick` makes of a datum. -/
  | untagged {α : Type} (name : String) (pick : Datum → Option α) : Shape α
  /-- Named fields; `strict` refuses others. -/
  | record {α ρ σ : Type} (name : String) (strict : Bool) (fields : Fields ρ σ) (make : ρ → α) :
    Shape α

/-- The fields of a record, in order. -/
inductive Fields : Type → Type → Type 1 where
  | nil : Fields Unit Unit
  /-- A field; `absent` is its value when the document does not mention it. -/
  | cons {α ρ σ : Type} (name : String) (absent : Option α) (s : Shape α) (rest : Fields ρ σ) :
    Fields (α × ρ) (Option α × σ)

end

namespace Fields

/-- The names of the fields. -/
def names {ρ σ : Type} : Fields ρ σ → List String
  | .nil => []
  | .cons name _ _ rest => name :: rest.names

/-- No slot filled. -/
def empty {ρ σ : Type} : Fields ρ σ → σ
  | .nil => ()
  | .cons _ _ _ rest => (none, rest.empty)

/-- The values of the fields once the document has named all it names. -/
def finish {ρ σ : Type} : Fields ρ σ → σ → Except Fault ρ
  | .nil, () => .ok ()
  | .cons name absent _ rest, (slot, slots) =>
    match slot <|> absent with
    | some a => do return (a, ← rest.finish slots)
    | none => .error (.missingField name)

end Fields

namespace Shape

/-- A required field. -/
abbrev field {α ρ σ : Type} (name : String) (s : Shape α) (rest : Fields ρ σ) :
    Fields (α × ρ) (Option α × σ) :=
  .cons name none s rest

/-- A field with a value of its own when the document does not mention it. -/
abbrev fieldOr {α ρ σ : Type} (name : String) (absent : α) (s : Shape α) (rest : Fields ρ σ) :
    Fields (α × ρ) (Option α × σ) :=
  .cons name (some absent) s rest

/-- What a record with this many fields is called when it is given by position. -/
def positional (name : String) (count : Nat) : String :=
  "struct " ++ name ++ " with " ++ toString count ++ (if count = 1 then " element" else " elements")

/-- The value a name stands for among the cases of a choice. -/
def pickCase {α : Type} (cases : List (String × α)) (name : String) : Except Fault α :=
  match cases.lookup name with
  | some a => .ok a
  | none => .error (.unknownVariant name (cases.map Prod.fst))

end Shape

end AttributeRegistry
