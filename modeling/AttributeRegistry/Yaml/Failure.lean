/-!
# Where a YAML text goes wrong

A `Mark` is a place in a text, and a `Failure` says what is wrong, where, and what was being read
and since where. Lines and columns count from zero inside the library and from one in messages;
columns count characters, while an index counts bytes.
-/

namespace AttributeRegistry.Yaml

/-- A place in a text. -/
structure Mark where
  /-- The number of bytes before it. -/
  index : Nat
  line : Nat
  column : Nat
deriving DecidableEq, Repr, Inhabited

namespace Mark

/-- The beginning of a text. -/
def start : Mark :=
  ⟨0, 0, 0⟩

/-- The place behind one more character of the line. -/
def next (m : Mark) (c : Char) : Mark :=
  ⟨m.index + c.utf8Size, m.line, m.column + 1⟩

/-- The place behind some more characters of the line. -/
def past (m : Mark) (cs : List Char) : Mark :=
  cs.foldl next m

/-- The place `n` characters further along the line, each of them a single byte. -/
def ahead (m : Mark) (n : Nat) : Mark :=
  ⟨m.index + n, m.line, m.column + n⟩

/-- The place behind a line break of some bytes. -/
def nextLine (m : Mark) (width : Nat) : Mark :=
  ⟨m.index + width, m.line + 1, 0⟩

/-- Whether a mark stands at the beginning of the first line. -/
def isOrigin (m : Mark) : Bool :=
  m.line = 0 && m.column = 0

/-- A mark in words, with a space in front; the beginning of a text goes without saying. -/
def phrase (m : Mark) : String :=
  if m.isOrigin then ""
  else " at line " ++ toString (m.line + 1) ++ " column " ++ toString (m.column + 1)

end Mark

/-- What was being read. -/
inductive Activity where
  | nextToken
  | simpleKey
  | directive
  | versionDirective
  | tagDirective
  | tagDirectiveHandle
  | tagDirectiveEnd
  | tagDirectiveUri
  | anchor
  | aliasName
  | tag
  | tagUri
  | blockScalar
  | quotedScalar
  | escapeSequence
  | plainScalar
  | node
  | blockNode
  | flowNode
  | blockCollection
  | blockMapping
  | flowSequence
  | flowMapping
deriving DecidableEq, Repr

/-- The wording of an activity. -/
def Activity.message : Activity → String
  | nextToken => "while scanning for the next token"
  | simpleKey => "while scanning a simple key"
  | directive => "while scanning a directive"
  | versionDirective => "while scanning a %YAML directive"
  | tagDirective => "while scanning a %TAG directive"
  | tagDirectiveHandle => "while scanning a tag directive"
  | tagDirectiveEnd => "while parsing a tag directive"
  | tagDirectiveUri => "while parsing a %TAG directive"
  | anchor => "while scanning an anchor"
  | aliasName => "while scanning an alias"
  | tag => "while scanning a tag"
  | tagUri => "while parsing a tag"
  | blockScalar => "while scanning a block scalar"
  | quotedScalar => "while scanning a quoted scalar"
  | escapeSequence => "while parsing a quoted scalar"
  | plainScalar => "while scanning a plain scalar"
  | node => "while parsing a node"
  | blockNode => "while parsing a block node"
  | flowNode => "while parsing a flow node"
  | blockCollection => "while parsing a block collection"
  | blockMapping => "while parsing a block mapping"
  | flowSequence => "while parsing a flow sequence"
  | flowMapping => "while parsing a flow mapping"

/-- What is wrong. -/
inductive Problem where
  | noToken
  | noColon
  | entryNotAllowed
  | keyNotAllowed
  | valueNotAllowed
  | noDirectiveName
  | directiveNameChar
  | unknownDirective
  | lineNotEnded
  | noVersionDot
  | longVersionNumber
  | noVersionNumber
  | noSpace
  | noSpaceOrBreak
  | noName
  | noBang
  | noClosingAngle
  | noUri
  | noUriEscape
  | leadingOctet
  | trailingOctet
  | zeroIndentation
  | tabInIndentation
  | tabInScalar
  | documentMarkInScalar
  | endInScalar
  | unknownEscape
  | noHexDigit
  | noCharacter
  | colonInScalar
  | noDocumentStart
  | duplicateVersion
  | incompatibleVersion
  | duplicateHandle
  | undefinedHandle
  | noContent
  | noDash
  | noKey
  | noItemEnd
  | noMemberEnd
  | unfinished
deriving DecidableEq, Repr

/-- The wording of a problem. -/
def Problem.message : Problem → String
  | noToken => "found character that cannot start any token"
  | noColon => "could not find expected ':'"
  | entryNotAllowed => "block sequence entries are not allowed in this context"
  | keyNotAllowed => "mapping keys are not allowed in this context"
  | valueNotAllowed => "mapping values are not allowed in this context"
  | noDirectiveName => "could not find expected directive name"
  | directiveNameChar => "found unexpected non-alphabetical character"
  | unknownDirective => "found unknown directive name"
  | lineNotEnded => "did not find expected comment or line break"
  | noVersionDot => "did not find expected digit or '.' character"
  | longVersionNumber => "found extremely long version number"
  | noVersionNumber => "did not find expected version number"
  | noSpace => "did not find expected whitespace"
  | noSpaceOrBreak => "did not find expected whitespace or line break"
  | noName => "did not find expected alphabetic or numeric character"
  | noBang => "did not find expected '!'"
  | noClosingAngle => "did not find the expected '>'"
  | noUri => "did not find expected tag URI"
  | noUriEscape => "did not find URI escaped octet"
  | leadingOctet => "found an incorrect leading UTF-8 octet"
  | trailingOctet => "found an incorrect trailing UTF-8 octet"
  | zeroIndentation => "found an indentation indicator equal to 0"
  | tabInIndentation => "found a tab character where an indentation space is expected"
  | tabInScalar => "found a tab character that violates indentation"
  | documentMarkInScalar => "found unexpected document indicator"
  | endInScalar => "found unexpected end of stream"
  | unknownEscape => "found unknown escape character"
  | noHexDigit => "did not find expected hexadecimal number"
  | noCharacter => "found invalid Unicode character escape code"
  | colonInScalar => "found unexpected ':'"
  | noDocumentStart => "did not find expected <document start>"
  | duplicateVersion => "found duplicate %YAML directive"
  | incompatibleVersion => "found incompatible YAML document"
  | duplicateHandle => "found duplicate %TAG directive"
  | undefinedHandle => "found undefined tag handle"
  | noContent => "did not find expected node content"
  | noDash => "did not find expected '-' indicator"
  | noKey => "did not find expected key"
  | noItemEnd => "did not find expected ',' or ']'"
  | noMemberEnd => "did not find expected ',' or '\x7d'"
  | unfinished => "did not find expected <stream-end>"

/-- Why a text is no YAML. -/
inductive Failure where
  /-- A character no text may hold, behind a number of bytes. -/
  | character (offset : Nat)
  /-- A problem at a place, and what was being read since where. -/
  | syntactic (problem : Problem) (place : Mark) (context : Option (Activity × Mark))
deriving DecidableEq, Repr

/-- The wording of a failure. The place of the context is left out if it is that of the problem. -/
def Failure.message : Failure → String
  | .character offset =>
    "control characters are not allowed"
      ++ (if offset = 0 then "" else " at position " ++ toString offset)
  | .syntactic problem place context =>
    problem.message ++ place.phrase ++
      match context with
      | none => ""
      | some (activity, since) =>
        ", " ++ activity.message
          ++ (if since.line = place.line ∧ since.column = place.column then "" else since.phrase)

/-- Fails with a problem while reading something. -/
def failWhile {α : Type} (activity : Activity) (since : Mark) (problem : Problem) (place : Mark) :
    Except Failure α :=
  .error (.syntactic problem place (some (activity, since)))

/-- Fails with a problem that says all. -/
def failAt {α : Type} (problem : Problem) (place : Mark) : Except Failure α :=
  .error (.syntactic problem place none)

end AttributeRegistry.Yaml
