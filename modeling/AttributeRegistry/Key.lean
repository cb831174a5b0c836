import AttributeRegistry.Text.Lines

/-!
# Keys

The grammar of attribute keys: two segments or more with periods between them, each a lower-case
ASCII letter followed by lower-case ASCII letters, digits and underscores.
-/

namespace AttributeRegistry.Key

/-- The characters of a segment behind its first one. -/
def isSegmentChar (c : Char) : Bool :=
  c.isLower || c.isDigit || c = '_'

/-- Whether a text is a segment. -/
def isSegment : List Char → Bool
  | [] => false
  | c :: cs => c.isLower && cs.all isSegmentChar

/-- Whether a text is a key. -/
def isValid (key : List Char) : Bool :=
  let segments := Text.splitOn '.' key
  2 ≤ segments.length && segments.all isSegment

/-- The grammar as messages show it. -/
def pattern : String :=
  "^[a-z][a-z0-9_]*(\\.[a-z][a-z0-9_]*)+$"

end AttributeRegistry.Key
