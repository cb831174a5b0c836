import AttributeRegistry.Shape.Fault

/-!
# Where reading JSON fails

A reader is a function on the text still to be read, so the rest of the text *is* the place in it.
A failure keeps its cause, the rest at which the reader stopped, and the mark it is reported at once
that is known: a fault found in a value gets the place at which the reader stands after leaving the
innermost array or object around it.

Lines count from one; columns count bytes, and a mark may point some bytes past the rest it names.
-/

namespace AttributeRegistry.Json

/-- What is wrong with a text that is no JSON. -/
inductive SyntaxError where
  | eofInList
  | eofInObject
  | eofInString
  | eofInValue
  | expectedColon
  | expectedItemEnd
  | expectedMemberEnd
  | expectedIdent
  | expectedValue
  | invalidEscape
  | invalidNumber
  | numberOutOfRange
  | controlCharacter
  | keyNotString
  | loneSurrogate
  | trailingComma
  | trailingCharacters
  | unfinishedHexEscape
  | tooDeep
deriving DecidableEq, Repr

/-- The wording of a syntax error. -/
def SyntaxError.message : SyntaxError → String
  | .eofInList => "EOF while parsing a list"
  | .eofInObject => "EOF while parsing an object"
  | .eofInString => "EOF while parsing a string"
  | .eofInValue => "EOF while parsing a value"
  | .expectedColon => "expected `:`"
  | .expectedItemEnd => "expected `,` or `]`"
  | .expectedMemberEnd => "expected `,` or `\x7d`"
  | .expectedIdent => "expected ident"
  | .expectedValue => "expected value"
  | .invalidEscape => "invalid escape"
  | .invalidNumber => "invalid number"
  | .numberOutOfRange => "number out of range"
  | .controlCharacter => "control character (\\u0000-\\u001F) found while parsing a string"
  | .keyNotString => "key must be a string"
  | .loneSurrogate => "lone leading surrogate in hex escape"
  | .trailingComma => "trailing comma"
  | .trailingCharacters => "trailing characters"
  | .unfinishedHexEscape => "unexpected end of hex escape"
  | .tooDeep => "recursion limit exceeded"

/-- Why a text is refused: it is no JSON, or it has another shape. -/
inductive Cause where
  | syntactic (e : SyntaxError)
  | shape (f : Fault)

/-- The wording of a cause. -/
def Cause.message : Cause → String
  | .syntactic e => e.message
  | .shape f => f.message .json

/-- A place in the text: `ahead` bytes into what is left of it. -/
structure Mark where
  rest : List Char
  ahead : Nat

/-- A failure of a reader. -/
structure Failure where
  cause : Cause
  /-- What the reader has not read. -/
  rest : List Char
  /-- Where the failure is reported, once that is known. -/
  mark : Option Mark

/-- A reader of values at the beginning of a text. -/
abbrev Reader (α : Type) := List Char → Except Failure (α × List Char)

/-- A syntax error before the rest. -/
def failAt {α : Type} (e : SyntaxError) (rest : List Char) : Except Failure α :=
  .error ⟨.syntactic e, rest, some ⟨rest, 0⟩⟩

/-- A syntax error at the next byte of the rest. -/
def failAhead {α : Type} (e : SyntaxError) (rest : List Char) (bytes : Nat) : Except Failure α :=
  .error ⟨.syntactic e, rest, some ⟨rest, bytes⟩⟩

/-- A fault whose place is the rest. -/
def faultAt {α : Type} (f : Fault) (rest : List Char) : Except Failure α :=
  .error ⟨.shape f, rest, some ⟨rest, 0⟩⟩

/-- A fault whose place is still open. -/
def fault {α : Type} (f : Fault) (rest : List Char) : Except Failure α :=
  .error ⟨.shape f, rest, none⟩

/-! ## Lines and columns -/

/-- Line and column behind a character. -/
def nextPosition (p : Nat × Nat) (c : Char) : Nat × Nat :=
  if c = '\n' then (p.1 + 1, 0) else (p.1, p.2 + c.utf8Size)

/-- Line and column some bytes into a text that starts at a position. -/
def positionAhead (p : Nat × Nat) : Nat → List Char → Nat × Nat
  | 0, _ => p
  | _, [] => p
  | n + 1, c :: cs =>
    if c.utf8Size ≤ n + 1 then positionAhead (nextPosition p c) (n + 1 - c.utf8Size) cs
    else (p.1, p.2 + n + 1)
termination_by _ cs => cs.length

/-- Line and column of a mark in the text it belongs to. -/
def Mark.position (text : List Char) (m : Mark) : Nat × Nat :=
  let read := text.take (text.length - m.rest.length)
  positionAhead (read.foldl nextPosition (1, 0)) m.ahead m.rest

/-- The wording of a failure, with its place if it has one. -/
def Failure.message (text : List Char) (f : Failure) : String :=
  match f.mark with
  | none => f.cause.message
  | some m =>
    let p := m.position text
    f.cause.message ++ " at line " ++ toString p.1 ++ " column " ++ toString p.2

end AttributeRegistry.Json
