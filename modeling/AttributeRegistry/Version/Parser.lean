import AttributeRegistry.Text.Blank
import AttributeRegistry.Text.Quoted
import AttributeRegistry.Version.Basic

/-!
# Reading versions

`Version.ofChars` reads a semantic version and says why a text is none. `Version.parse` is what
registry documents and settings use: it trims blanks and allows one `v` in front.
-/

namespace AttributeRegistry.Version

/-- The parts of a version, in the order they are read. -/
inductive Part where
  | major | minor | patch | pre | build
deriving DecidableEq, Repr

/-- The name of a part in messages. -/
def Part.name : Part → String
  | .major => "major version number"
  | .minor => "minor version number"
  | .patch => "patch version number"
  | .pre => "pre-release identifier"
  | .build => "build metadata"

/-- Why a text is no version. -/
inductive Error where
  | empty
  | unexpectedEnd (part : Part)
  | unexpectedChar (part : Part) (c : Char)
  | unexpectedCharAfter (part : Part) (c : Char)
  | leadingZero (part : Part)
  | overflow (part : Part)
  | emptySegment (part : Part)
deriving DecidableEq, Repr

/-- The wording of an error. -/
def Error.message : Error → String
  | .empty => "empty string, expected a semver version"
  | .unexpectedEnd part => "unexpected end of input while parsing " ++ part.name
  | .unexpectedChar part c =>
    "unexpected character " ++ Text.quotedSingle c ++ " while parsing " ++ part.name
  | .unexpectedCharAfter part c =>
    "unexpected character " ++ Text.quotedSingle c ++ " after " ++ part.name
  | .leadingZero part => "invalid leading zero in " ++ part.name
  | .overflow part => "value of " ++ part.name ++ " exceeds u64::MAX"
  | .emptySegment part => "empty identifier segment in " ++ part.name

/-- A number below `2^64` without a leading zero, and the text behind it. -/
def readNumber (part : Part) (cs : List Char) : Except Error (UInt64 × List Char) :=
  let digits := cs.takeWhile Char.isDigit
  let rest := cs.dropWhile Char.isDigit
  match digits, rest with
  | [], [] => .error (.unexpectedEnd part)
  | [], c :: _ => .error (.unexpectedChar part c)
  | '0' :: _ :: _, _ => .error (.leadingZero part)
  | digits, rest =>
    let n := digitsValue digits
    if n < UInt64.size then .ok (UInt64.ofNat n, rest) else .error (.overflow part)

/-- The text behind a period. -/
def readDot (part : Part) : List Char → Except Error (List Char)
  | '.' :: rest => .ok rest
  | c :: _ => .error (.unexpectedCharAfter part c)
  | [] => .error (.unexpectedEnd part)

/-- Non-empty segments of identifier characters with periods between them, and the text behind
them. -/
def readSegments (part : Part) (cs : List Char) : Except Error (List (List Char) × List Char) :=
  let segment := cs.takeWhile isIdentifierChar
  match segment, _h : cs.dropWhile isIdentifierChar with
  | [], _ => .error (.emptySegment part)
  | _ :: _, '.' :: rest =>
    if part = .pre ∧ hasLeadingZero segment then .error (.leadingZero part) else do
      let (segments, rest) ← readSegments part rest
      return (segment :: segments, rest)
  | _ :: _, rest =>
    if part = .pre ∧ hasLeadingZero segment then .error (.leadingZero part) else
      return ([segment], rest)
termination_by cs.length
decreasing_by
  have := (List.dropWhile_suffix isIdentifierChar (l := cs)).length_le
  rw [_h] at this
  simp at this
  omega
where
  /-- Whether a segment is a number of several digits that begins with zero. -/
  hasLeadingZero (segment : List Char) : Bool :=
    segment.all Char.isDigit && 1 < segment.length && segment.head? == some '0'

/-- A segment as an identifier of a pre-release. -/
def PreIdentifier.ofSegment (segment : List Char) : Option PreIdentifier :=
  if segment.all Char.isDigit then some (.number (digitsValue segment))
  else if h : isWord segment then some (.word segment h)
  else none

/-- A segment as an identifier of build metadata. -/
def BuildIdentifier.ofSegment (segment : List Char) : Option BuildIdentifier :=
  if h : segment ≠ [] ∧ segment.all isIdentifierChar then some ⟨segment, h⟩ else none

/-- The pre-release, if the text goes on with a hyphen. -/
def readPre : List Char → Except Error (List PreIdentifier × List Char)
  | '-' :: cs => do
    let (segments, rest) ← readSegments .pre cs
    return (segments.filterMap PreIdentifier.ofSegment, rest)
  | cs => .ok ([], cs)

/-- The build metadata, if the text goes on with a plus sign. -/
def readBuild : List Char → Except Error (List BuildIdentifier × List Char)
  | '+' :: cs => do
    let (segments, rest) ← readSegments .build cs
    return (segments.filterMap BuildIdentifier.ofSegment, rest)
  | cs => .ok ([], cs)

/-- Reads a semantic version. -/
def ofChars (cs : List Char) : Except Error Version := do
  if cs = [] then throw .empty
  let (major, rest) ← readNumber .major cs
  let rest ← readDot .major rest
  let (minor, rest) ← readNumber .minor rest
  let rest ← readDot .minor rest
  let (patch, rest) ← readNumber .patch rest
  let (pre, afterPre) ← readPre rest
  let (build, afterBuild) ← readBuild afterPre
  match afterBuild with
  | [] => return ⟨major, minor, patch, pre, build⟩
  | c :: _ =>
    let last : Part := if build ≠ [] then .build else if pre ≠ [] then .pre else .patch
    throw (.unexpectedCharAfter last c)

/-- The text of a version without one `v` in front. -/
def dropV : List Char → List Char
  | 'v' :: cs => cs
  | cs => cs

/-- Reads a version as it is written in documents and settings: blanks around it and one `v` in
front do not count. -/
def parse (raw : String) : Except Error Version :=
  ofChars (dropV (Text.trim raw.toList))

end AttributeRegistry.Version
