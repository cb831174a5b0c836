import AttributeRegistry.Toml.Failure

/-!
# Values of TOML

What a text holds, together with the part of the text each value is written in. A table knows how it
came to be, because that decides how it may be extended later on: by a header, by keys with periods,
or not at all.
-/

namespace AttributeRegistry.Toml

/-- A value without parts. -/
inductive Scalar where
  | text (s : String)
  | int (n : Int)
  | float (x : Float)
  | flag (b : Bool)
  /-- A date, a time, or both, in its normal form. -/
  | date (s : String)

/-- A key and the part of the text it is written in. -/
structure Key where
  name : String
  span : Span

/-- How a table came to be. -/
inductive TableKind where
  /-- By a header of its own. -/
  | header
  /-- By the header of a table inside it. -/
  | implied
  /-- By a key with periods. -/
  | dotted
  /-- Between braces. -/
  | inline
deriving DecidableEq, Repr

mutual

/-- A value. -/
inductive Item where
  | scalar (v : Scalar) (span : Span)
  | array (items : List Item) (span : Span)
  | table (t : Table)
  /-- Tables given one after the other under the same header. -/
  | tables (ts : List Table)

/-- A table; its entries keep their order. -/
inductive Table where
  | mk (kind : TableKind) (span : Option Span) (entries : List (Key × Item))

end

namespace Table

/-- How a table came to be. -/
def kind : Table → TableKind
  | mk kind _ _ => kind

/-- The part of the text a table is written in, if it is one part. -/
def span : Table → Option Span
  | mk _ span _ => span

/-- The entries of a table. -/
def entries : Table → List (Key × Item)
  | mk _ _ entries => entries

/-- A table with other entries. -/
def withEntries (t : Table) (entries : List (Key × Item)) : Table :=
  mk t.kind t.span entries

end Table

namespace Item

/-- The part of the text a value is written in, if it is one part. -/
def span : Item → Option Span
  | scalar _ span => some span
  | array _ span => some span
  | table t => t.span
  | tables ts => do
    let first ← (← ts.head?).span
    let last ← (← ts.getLast?).span
    return ⟨first.start, last.stop⟩

/-- The name of a kind of value. -/
def kindName : Item → String
  | scalar (.text _) _ => "string"
  | scalar (.int _) _ => "integer"
  | scalar (.float _) _ => "float"
  | scalar (.flag _) _ => "boolean"
  | scalar (.date _) _ => "datetime"
  | array _ _ => "array"
  | table t => if t.kind = .inline then "inline table" else "table"
  | tables _ => "array of tables"

end Item

end AttributeRegistry.Toml
