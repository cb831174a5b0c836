import AttributeRegistry.Diff.Compact
import AttributeRegistry.Diff.Myers

/-!
# Unified diffs

The difference of two texts as hunks: a header with the places of its lines in both texts, then the
lines, each behind a sign. Up to three unchanged lines stand around every change.

A line includes its line end; a carriage return alone is one too.
-/

namespace AttributeRegistry.Diff

/-! ## Lines -/

/-- The lines of a text with their line ends. -/
def splitLines (cs : List Char) : List (List Char) :=
  match cs with
  | [] => []
  | '\r' :: '\n' :: rest => ['\r', '\n'] :: splitLines rest
  | c :: rest =>
    if c = '\r' ∨ c = '\n' then [c] :: splitLines rest
    else match splitLines rest with
      | [] => [[c]]
      | line :: lines => (c :: line) :: lines

/-- Whether a line has a line end. -/
def isEnded (line : String) : Bool :=
  line.endsWith "\n" || line.endsWith "\r"

/-- The lines of both texts. -/
def Sides.ofTexts (old new : String) : Sides :=
  let lines (text : String) := ((splitLines text.toList).map String.ofList).toArray
  ⟨lines old, lines new⟩

/-! ## Hunks -/

/-- How many unchanged lines stand around a change. -/
def context : Nat :=
  3

/-- Leaves `context` lines of the unchanged run a script begins with. -/
def trimHead : List Edit → List Edit
  | e :: es =>
    if e.kind = .keep then
      let cut := e.oldCount - context
      (e.down cut).shrink cut :: es
    else e :: es
  | [] => []

/-- Leaves `context` lines of the unchanged run a script ends with. -/
def trimTail (es : List Edit) : List Edit :=
  match es.reverse with
  | e :: before =>
    if e.kind = .keep then (e.shrink (e.oldCount - context) :: before).reverse else es
  | [] => []

/-- The hunks of a script; `group` holds the edits of the hunk that is not complete. -/
def hunksFrom (group : List Edit) : List Edit → List (List Edit)
  | [] =>
    match group with
    | [] => []
    | [e] => if e.kind = .keep then [] else [[e]]
    | es => [es]
  | e :: es =>
    if e.kind = .keep && 2 * context < e.oldCount then
      let cut := e.oldCount - context
      (group ++ [e.shrink cut]) :: hunksFrom [(e.down cut).shrink cut] es
    else hunksFrom (group ++ [e]) es

/-- The hunks of a script. -/
def hunks (es : List Edit) : List (List Edit) :=
  match es with
  | [] => []
  | es => hunksFrom [] (trimTail (trimHead es))

/-! ## Text -/

/-- The place of some lines: the number of the first one, and how many there are unless it is one.
No lines stand behind the line before them. -/
def place (start stop : Nat) : String :=
  let count := stop - start
  if count = 1 then toString (start + 1)
  else toString (if count = 0 then start else start + 1) ++ "," ++ toString count

/-- The header of a hunk. -/
def hunkHeader (first last : Edit) : String :=
  "@@ -" ++ place first.oldStart last.oldEnd ++ " +" ++ place first.newStart last.newEnd ++ " @@\n"

/-- A line of a hunk, with a remark if it has no line end. -/
def hunkLine (sign : String) (line : String) : String :=
  sign ++ line ++ (if isEnded line then "" else "\n\\ No newline at end of file\n")

/-- Some lines of a text behind a sign. -/
def signed (sign : String) (lines : Array String) (start count : Nat) : String :=
  String.join ((lines.toList.drop start |>.take count).map (hunkLine sign))

/-- The lines of an edit. -/
def editText (s : Sides) (e : Edit) : String :=
  match e.kind with
  | .keep => signed " " s.old e.oldStart e.oldCount
  | _ => signed "-" s.old e.oldStart e.oldCount ++ signed "+" s.new e.newStart e.newCount

/-- A hunk. -/
def hunkText (s : Sides) (es : List Edit) : String :=
  match es, es.getLast? with
  | first :: _, some last => hunkHeader first last ++ String.join (es.map (editText s))
  | _, _ => ""

/-- The unified diff of two texts of a file; nothing if they are equal. -/
def unified (fileName old new : String) : String :=
  let s := Sides.ofTexts old new
  match hunks (compact s (script s)) with
  | [] => ""
  | hs => "--- a/" ++ fileName ++ "\n+++ b/" ++ fileName ++ "\n" ++ String.join (hs.map (hunkText s))

end AttributeRegistry.Diff
