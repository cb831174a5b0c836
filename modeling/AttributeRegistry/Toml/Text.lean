import AttributeRegistry.Text.Hex
import AttributeRegistry.Text.Lines
import AttributeRegistry.Toml.Failure

/-!
# Texts of TOML

A text stands between quotes, in which a backslash begins an escape, or between apostrophes, in which
nothing does. Three of them at either end make a text that may hold line ends; a line end directly
behind the opening ones does not count, and up to two of the same may stand in front of the closing
ones.
-/

namespace AttributeRegistry.Toml

/-! ## Blanks, comments and line ends -/

/-- A space or a tab. -/
def isBlank (c : Char) : Bool :=
  c = ' ' || c = '\t'

/-- The characters a comment may hold. -/
def isCommentChar (c : Char) : Bool :=
  c = '\t' || (' ' ≤ c && c ≠ '\x7f')

/-- Drops the blanks a text begins with. -/
def skipBlanks (cs : List Char) : List Char :=
  cs.dropWhile isBlank

theorem skipBlanks_length (cs : List Char) : (skipBlanks cs).length ≤ cs.length :=
  (List.dropWhile_sublist _).length_le

/-- Drops a comment at the beginning of a text, up to the end of its line. -/
def skipComment : List Char → List Char
  | '#' :: cs => cs.dropWhile isCommentChar
  | cs => cs

/-- What follows a line end at the beginning of a text. -/
def afterLineEnd? : List Char → Option (List Char)
  | '\n' :: cs => some cs
  | '\r' :: '\n' :: cs => some cs
  | _ => none

/-- Drops blanks, line ends and whole-line comments at the beginning of a text; a comment has to end
with its line, and a failure points behind the character that it holds instead. -/
def skipGap (inComment : Bool) : List Char → Except Failure (List Char)
  | [] => if inComment then refuse [] else .ok []
  | '\n' :: cs => skipGap false cs
  | '\r' :: '\n' :: cs => skipGap false cs
  | c :: cs =>
    if c = '\r' then refuse cs
    else if inComment then
      if isCommentChar c then skipGap true cs else refuse cs
    else if isBlank c then skipGap false cs
    else if c = '#' then skipGap true cs
    else .ok (c :: cs)

/-- Drops blanks and line ends at the beginning of a text. -/
def skipBlankLines : List Char → List Char
  | '\n' :: cs => skipBlankLines cs
  | '\r' :: '\n' :: cs => skipBlankLines cs
  | c :: cs => if isBlank c then skipBlankLines cs else c :: cs
  | [] => []

/-! ## Escapes -/

/-- The words that stand for what may follow a backslash. -/
def escapeNames : List String :=
  ["b", "f", "n", "r", "t", "u", "U", "\\", "\""].map backquoted

/-- The cause of refusing a number that stands for nothing. -/
def outOfRange : String :=
  "value is out of range"

/-- A character given by its number in exactly `count` hexadecimal digits. -/
def hexEscape (count : Nat) (cs : List Char) : Except Failure (Char × List Char) :=
  let digits := (cs.take count).takeWhile fun c => (Text.hexValue? c).isSome
  match if digits.length = count then Text.hexNumber? digits else none with
  | none => refuse cs
  | some n =>
    if n.isValidChar then .ok (Char.ofNat n, cs.drop count)
    else refuseFor outOfRange cs

/-- What stands behind the backslash of an escape; nothing behind it is no escape at all. A failure
points behind the first byte of the character that begins no escape, or else at that character. -/
def escaped : Reader Char
  | [] => refuse []
  | c :: cs =>
    if c = 'b' then .ok ('\x08', cs)
    else if c = 'f' then .ok ('\x0c', cs)
    else if c = 'n' then .ok ('\n', cs)
    else if c = 'r' then .ok ('\r', cs)
    else if c = 't' then .ok ('\t', cs)
    else if c = '\\' then .ok ('\\', cs)
    else if c = '"' then .ok ('"', cs)
    else if c = 'u' then labeled "unicode 4-digit hex code" (commit (hexEscape 4 cs))
    else if c = 'U' then labeled "unicode 8-digit hex code" (commit (hexEscape 8 cs))
    else
      let place := if c.utf8Size = 1 then cs else c :: cs
      expecting escapeNames (labeled "escape sequence" (commit (refuse place)))

/-- What follows a backslash at the end of a line: the text from the next character on that is no
blank and no line end. -/
def afterJoinedLine? (cs : List Char) : Option (List Char) :=
  (afterLineEnd? (skipBlanks cs)).map skipBlankLines

/-! ## Between quotes -/

/-- The characters that stand for themselves between quotes. -/
def isPlain (c : Char) : Bool :=
  isCommentChar c && c ≠ '"' && c ≠ '\\'

/-- The rest of a text of one line between quotes. -/
def quotedRest (cs : List Char) : Except Failure (List Char × List Char) :=
  match cs with
  | '"' :: rest => .ok ([], rest)
  | '\\' :: rest =>
    match escaped rest with
    | .ok (c, after) =>
      if after.length ≤ rest.length then do
        let (more, after) ← quotedRest after
        return (c :: more, after)
      else refuse cs
    | .error f => if f.committed then .error f else labeled "basic string" (commit (refuse cs))
  | c :: rest =>
    if isPlain c then do
      let (more, after) ← quotedRest rest
      return (c :: more, after)
    else labeled "basic string" (commit (refuse cs))
  | [] => labeled "basic string" (commit (refuse []))
termination_by cs.length

/-- A failure inside a text of several lines between quotes. -/
def stopQuoted {α : Type} (rest : List Char) : Except Failure α :=
  labeled "multiline basic string" (commit (refuse rest))

/-- The rest of a text of several lines between quotes. -/
def quotedLinesRest (cs : List Char) : Except Failure (List Char × List Char) :=
  match cs with
  | '"' :: '"' :: '"' :: '"' :: '"' :: rest => .ok (['"', '"'], rest)
  | '"' :: '"' :: '"' :: '"' :: rest => .ok (['"'], rest)
  | '"' :: '"' :: '"' :: rest => .ok ([], rest)
  | ['"', '"'] => stopQuoted cs
  | ['"'] => stopQuoted cs
  | '\\' :: rest =>
    match afterJoinedLine? rest with
    | some after =>
      if after.length ≤ rest.length then quotedLinesRest after else stopQuoted cs
    | none =>
      match escaped rest with
      | .ok (c, after) =>
        if after.length ≤ rest.length then do
          let (more, after) ← quotedLinesRest after
          return (c :: more, after)
        else stopQuoted cs
      | .error f => if f.committed then labeled "multiline basic string" (.error f) else stopQuoted cs
  | '\r' :: '\n' :: rest => do
    let (more, after) ← quotedLinesRest rest
    return ('\n' :: more, after)
  | c :: rest =>
    if c = '\n' || c = '"' || isPlain c then do
      let (more, after) ← quotedLinesRest rest
      return (c :: more, after)
    else stopQuoted cs
  | [] => stopQuoted []
termination_by cs.length

/-! ## Between apostrophes -/

/-- The characters a text between apostrophes may hold. -/
def isLiteral (c : Char) : Bool :=
  isCommentChar c && c ≠ '\''

/-- The rest of a text of one line between apostrophes. -/
def literalRest (cs : List Char) : Except Failure (List Char × List Char) :=
  let taken := cs.takeWhile isLiteral
  match cs.dropWhile isLiteral with
  | '\'' :: rest => .ok (taken, rest)
  | rest => labeled "literal string" (commit (refuse rest))

/-- A failure inside a text of several lines between apostrophes. -/
def stopLiteral {α : Type} (rest : List Char) : Except Failure α :=
  labeled "multiline literal string" (commit (refuse rest))

/-- Whether a text of several lines between apostrophes goes on with something else than them. -/
def goesOnLiteral : List Char → Bool
  | '\r' :: '\n' :: _ => true
  | c :: _ => c = '\n' || isLiteral c
  | [] => false

/-- The rest of a text of several lines between apostrophes. -/
def literalLinesRest (cs : List Char) : Except Failure (List Char × List Char) :=
  match cs with
  | '\'' :: '\'' :: '\'' :: '\'' :: '\'' :: rest => .ok (['\'', '\''], rest)
  | '\'' :: '\'' :: '\'' :: '\'' :: rest => .ok (['\''], rest)
  | '\'' :: '\'' :: '\'' :: rest => .ok ([], rest)
  | '\'' :: '\'' :: rest =>
    if goesOnLiteral rest then do
      let (more, after) ← literalLinesRest rest
      return ('\'' :: '\'' :: more, after)
    else stopLiteral cs
  | '\r' :: '\n' :: rest => do
    let (more, after) ← literalLinesRest rest
    return ('\n' :: more, after)
  | c :: rest =>
    if c = '\n' || isLiteral c || (c = '\'' && goesOnLiteral rest) then do
      let (more, after) ← literalLinesRest rest
      return (c :: more, after)
    else stopLiteral cs
  | [] => stopLiteral []

/-! ## Any text -/

/-- Drops a line end at the beginning of a text. -/
def skipLineEnd (cs : List Char) : List Char :=
  (afterLineEnd? cs).getD cs

/-- A text of one line. -/
def oneLine : Reader (List Char)
  | '"' :: cs => quotedRest cs
  | '\'' :: cs => literalRest cs
  | cs => refuse cs

/-- A text. -/
def text : Reader (List Char)
  | '"' :: '"' :: '"' :: cs => quotedLinesRest (skipLineEnd cs)
  | '\'' :: '\'' :: '\'' :: cs => literalLinesRest (skipLineEnd cs)
  | cs => oneLine cs

end AttributeRegistry.Toml
