import AttributeRegistry.Text.Hex
import AttributeRegistry.Text.Lines

/-!
# Writing TOML

A document is written section by section, with a blank line in between. Lists of more than one text
have a line for each.

A text is written in the first of these forms that can hold it as it is: between quotes; between
apostrophes; between three quotes; between three apostrophes. A text none of them can hold is written
with escapes, between three quotes if it has line feeds and between quotes if not.
-/

namespace AttributeRegistry.Toml

/-! ## Texts -/

/-- The forms of a text. -/
inductive Style where
  | quoted | literal | quotedLines | literalLines
deriving DecidableEq, Repr

/-- The length of the longest run of a character; `run` of them stand in front. -/
def longestRun (c : Char) (run : Nat) : List Char → Nat
  | [] => run
  | d :: ds => if d = c then longestRun c (run + 1) ds else max run (longestRun c 0 ds)

/-- The control characters no form can hold as they are. -/
def isControl (c : Char) : Bool :=
  (c.toNat < 0x20 && c ≠ '\t' && c ≠ '\n') || c = '\x7f'

/-- The form a text is written in. -/
def style (cs : List Char) : Style :=
  let quotes := longestRun '"' 0 cs
  let apostrophes := longestRun '\'' 0 cs
  let lines := cs.contains '\n'
  if cs.any isControl then if lines then .quotedLines else .quoted
  else if !cs.contains '\\' && quotes = 0 && !lines then .quoted
  else if apostrophes = 0 && !lines then .literal
  else if !cs.contains '\\' && quotes ≤ 2 then .quotedLines
  else if apostrophes ≤ 2 then .literalLines
  else if lines then .quotedLines
  else .quoted

/-- A character that is escaped wherever it stands between quotes. -/
def escapeAlways? (c : Char) : Option (List Char) :=
  if c = '\x08' then some ['\\', 'b']
  else if c = '\t' then some ['\\', 't']
  else if c = '\x0c' then some ['\\', 'f']
  else if c = '\r' then some ['\\', 'r']
  else if c = '\\' then some ['\\', '\\']
  else if isControl c then
    let n := c.toNat
    some ['\\', 'u', '0', '0', (Text.hexDigit (n / 16)).toUpper, (Text.hexDigit (n % 16)).toUpper]
  else none

/-- A text with escapes. Up to `limit` quotes in a row stand for themselves, `run` of which stand in
front; line feeds do if `lines` says so. -/
def escape (limit : Nat) (lines : Bool) (run : Nat) : List Char → List Char
  | [] => []
  | c :: cs =>
    if c = '"' then
      if run < limit then '"' :: escape limit lines (run + 1) cs
      else '\\' :: '"' :: escape limit lines 0 cs
    else if c = '\n' then
      if lines then '\n' :: escape limit lines 0 cs else '\\' :: 'n' :: escape limit lines 0 cs
    else match escapeAlways? c with
      | some written => written ++ escape limit lines 0 cs
      | none => c :: escape limit lines 0 cs

/-- A text as it is written. -/
def writeChars (cs : List Char) : List Char :=
  let start := if cs.contains '\n' then ['\n'] else []
  match style cs with
  | .quoted => '"' :: escape 0 false 0 cs ++ ['"']
  | .literal => '\'' :: cs ++ ['\'']
  | .quotedLines => ['"', '"', '"'] ++ start ++ escape 2 true 0 cs ++ ['"', '"', '"']
  | .literalLines => ['\'', '\'', '\''] ++ start ++ cs ++ ['\'', '\'', '\'']

/-- A text as it is written. -/
def writeText (s : String) : String :=
  String.ofList (writeChars s.toList)

/-! ## Keys -/

/-- The characters of keys that need no quotes. -/
def isBareKeyChar (c : Char) : Bool :=
  c.isAlphanum || c = '_' || c = '-'

/-- A key as it is written: bare, between quotes or between apostrophes if one of these forms can
hold it as it is, and with escapes if none can. -/
def writeKey (name : String) : String :=
  let cs := name.toList
  let printable := cs.all fun c => !(isControl c || c = '\t' || c = '\n')
  if !cs.isEmpty && cs.all isBareKeyChar then name
  else if printable && !cs.contains '\\' && !cs.contains '"' then "\"" ++ name ++ "\""
  else if printable && !cs.contains '\'' then "'" ++ name ++ "'"
  else String.ofList ('"' :: escape 0 false 0 cs ++ ['"'])

/-! ## Sections -/

/-- What a section may hold. -/
inductive Value where
  | text (s : String)
  | flag (b : Bool)
  | texts (ss : List String)

/-- A value as it is written. -/
def Value.write : Value → String
  | .text s => writeText s
  | .flag b => toString b
  | .texts [] => "[]"
  | .texts [s] => "[" ++ writeText s ++ "]"
  | .texts ss => "[\n" ++ String.join (ss.map fun s => "    " ++ writeText s ++ ",\n") ++ "]"

/-- A section: a header, and entries under it. -/
structure Section where
  name : String
  entries : List (String × Value)

/-- A section as it is written. -/
def Section.write (s : Section) : String :=
  "[" ++ s.name ++ "]\n"
    ++ String.join (s.entries.map fun (key, value) => key ++ " = " ++ value.write ++ "\n")

/-- Sections as they are written. -/
def writeSections (sections : List Section) : String :=
  String.intercalate "\n" (sections.map Section.write)

end AttributeRegistry.Toml
