import AttributeRegistry.Shape.Fault

/-!
# Where reading TOML fails

A reader is a function on the text still to be read. It gives a value and the rest, or a failure with
the rest at which it stopped. A failure is *committed* when no other reading of the same text is to
be tried; what is optional, or one of several forms, is skipped when it fails without commitment.

On the way out a failure collects what it was part of and what would have been right instead; of
several labels the innermost one counts.
-/

namespace AttributeRegistry.Toml

/-- Why and where a reader stopped. -/
structure Failure where
  rest : List Char
  committed : Bool
  /-- What was being read. -/
  label : Option String
  /-- What would have been right. -/
  expected : List String
  cause : Option String

/-- A reader of values. -/
abbrev Reader (α : Type) := List Char → Except Failure (α × List Char)

/-- Stops, without commitment. -/
def refuse {α : Type} (rest : List Char) : Except Failure α :=
  .error ⟨rest, false, none, [], none⟩

/-- Stops for a reason, without commitment. -/
def refuseFor {α : Type} (cause : String) (rest : List Char) : Except Failure α :=
  .error ⟨rest, false, none, [], some cause⟩

/-- Makes a failure final. -/
def commit {α : Type} (x : Except Failure α) : Except Failure α :=
  x.mapError fun f => { f with committed := true }

/-- Says what was being read. -/
def labeled {α : Type} (label : String) (x : Except Failure α) : Except Failure α :=
  x.mapError fun f => { f with label := f.label <|> some label }

/-- Says what would have been right. -/
def expecting {α : Type} (what : List String) (x : Except Failure α) : Except Failure α :=
  x.mapError fun f => { f with expected := f.expected ++ what }

/-- The second reading if the first fails without commitment. -/
def orElse {α : Type} (x : Except Failure α) (y : Unit → Except Failure α) : Except Failure α :=
  match x with
  | .error f => if f.committed then .error f else y ()
  | x => x

/-- What may be absent: the text is left as it is if reading fails without commitment. -/
def optionally {α : Type} (read : Reader α) : Reader (Option α) := fun cs =>
  match read cs with
  | .ok (a, rest) => .ok (some a, rest)
  | .error f => if f.committed then .error f else .ok (none, cs)

/-- A reason to refuse what was read, at its beginning. -/
def check {α β : Type} (f : α → Except String β) (read : Reader α) : Reader β := fun cs => do
  let (a, rest) ← read cs
  match f a with
  | .ok b => return (b, rest)
  | .error cause => refuseFor cause cs

/-! ## Wording -/

/-- The wording of a failure. -/
def Failure.message (f : Failure) : String :=
  let parts := (f.label.map fun l => "invalid " ++ l).toList
    ++ (if f.expected.isEmpty then [] else ["expected " ++ String.intercalate ", " f.expected])
    ++ f.cause.toList
  String.intercalate "\n" parts

/-- A part of a text: from where the text goes on with `start` to where it goes on with `stop`. -/
structure Span where
  start : List Char
  stop : List Char

/-- The number of bytes of some characters. -/
def byteCount (cs : List Char) : Nat :=
  cs.foldl (fun n c => n + c.utf8Size) 0

/-- The number of bytes in a part of a text. -/
def Span.bytes (s : Span) : Nat :=
  byteCount (s.start.take (s.start.length - s.stop.length))

/-- The part of a text a failure points at: the next character. -/
def Failure.span (f : Failure) : Span :=
  ⟨f.rest, f.rest.drop 1⟩

/-- The line and the column, from zero, of the place behind `before`. The place behind a whole text
belongs to the line of its last character. Columns count characters, except that a place in front of
a character of more than one byte counts bytes. -/
def place (before rest : List Char) : Nat × Nat :=
  let (before, extra) := match rest with
    | [] => (before.dropLast, if before.isEmpty then 0 else 1)
    | _ => (before, 0)
  let line := (before.reverse.takeWhile (· ≠ '\n')).reverse
  let column := match rest with
    | c :: _ => if c.utf8Size = 1 then line.length else byteCount line
    | [] => line.length
  (before.count '\n', column + extra)

/-- The line of a text with a given number. -/
def lineAt (text : List Char) (line : Nat) : List Char :=
  (Nat.repeat (fun rest => (rest.dropWhile (· ≠ '\n')).drop 1) line text).takeWhile (· ≠ '\n')

/-- A message with the line it is about and a mark under the part it is about. -/
def report (text : List Char) (span : Span) (message : String) : String :=
  let (line, column) := place (text.take (text.length - span.start.length)) span.start
  let content := lineAt text line
  let number := toString (line + 1)
  let gutter := String.ofList (List.replicate (number.length + 1) ' ')
  let width := max 1 (min span.bytes (byteCount content))
  "TOML parse error at line " ++ number ++ ", column " ++ toString (column + 1) ++ "\n"
    ++ gutter ++ "|\n"
    ++ number ++ " | " ++ String.ofList content ++ "\n"
    ++ gutter ++ "|" ++ String.ofList (List.replicate (column + 1) ' ')
    ++ String.ofList (List.replicate width '^') ++ "\n"
    ++ message ++ "\n"

end AttributeRegistry.Toml
