/-!
# Edits

An edit script turns one list of lines into another: it is a list of edits, each of which keeps,
removes or inserts a run of lines, and knows where the run stands in both lists.
-/

namespace AttributeRegistry.Diff

/-- What an edit does with its lines. -/
inductive EditKind where
  /-- The lines stand in both lists. -/
  | keep
  /-- The lines stand in the old list only. -/
  | remove
  /-- The lines stand in the new list only. -/
  | insert
  /-- Lines of the old list stand for lines of the new one. -/
  | replace
deriving DecidableEq, Repr

/-- An edit, with the runs of lines it covers in the old and the new list. -/
structure Edit where
  kind : EditKind
  oldStart : Nat
  oldCount : Nat
  newStart : Nat
  newCount : Nat
deriving DecidableEq, Repr

namespace Edit

/-- Keeps lines. -/
def keeping (oldStart newStart count : Nat) : Edit :=
  ⟨.keep, oldStart, count, newStart, count⟩

/-- Removes lines. -/
def removing (oldStart count newStart : Nat) : Edit :=
  ⟨.remove, oldStart, count, newStart, 0⟩

/-- Inserts lines. -/
def inserting (oldStart newStart count : Nat) : Edit :=
  ⟨.insert, oldStart, 0, newStart, count⟩

/-- The line behind the edit in the old list. -/
def oldEnd (e : Edit) : Nat :=
  e.oldStart + e.oldCount

/-- The line behind the edit in the new list. -/
def newEnd (e : Edit) : Nat :=
  e.newStart + e.newCount

/-- Whether an edit covers no lines. -/
def isEmpty (e : Edit) : Bool :=
  e.oldCount = 0 && e.newCount = 0

/-- The edit, `n` lines further up. -/
def up (e : Edit) (n : Nat) : Edit :=
  { e with oldStart := e.oldStart - n, newStart := e.newStart - n }

/-- The edit, `n` lines further down. -/
def down (e : Edit) (n : Nat) : Edit :=
  { e with oldStart := e.oldStart + n, newStart := e.newStart + n }

/-- The edit with `n` more lines at its end. -/
def grow (e : Edit) (n : Nat) : Edit :=
  match e.kind with
  | .keep | .replace => { e with oldCount := e.oldCount + n, newCount := e.newCount + n }
  | .remove => { e with oldCount := e.oldCount + n }
  | .insert => { e with newCount := e.newCount + n }

/-- The edit with `n` fewer lines at its end. -/
def shrink (e : Edit) (n : Nat) : Edit :=
  match e.kind with
  | .keep | .replace => { e with oldCount := e.oldCount - n, newCount := e.newCount - n }
  | .remove => { e with oldCount := e.oldCount - n }
  | .insert => { e with newCount := e.newCount - n }

end Edit

/-- The lines of the old and of the new text. -/
structure Sides where
  old : Array String
  new : Array String

namespace Sides

/-- How many lines from two places on are equal, within `limit`. -/
def prefixLength (s : Sides) (i j : Nat) : Nat → Nat
  | 0 => 0
  | limit + 1 =>
    if s.old[i]? = s.new[j]? then 1 + s.prefixLength (i + 1) (j + 1) limit else 0

/-- How many lines before two places are equal, within `limit`. -/
def suffixLength (s : Sides) (i j : Nat) : Nat → Nat
  | 0 => 0
  | limit + 1 =>
    if s.old[i - 1]? = s.new[j - 1]? then 1 + s.suffixLength (i - 1) (j - 1) limit else 0

/-- How many lines the old run of one edit and the new run of another begin with in common. -/
def commonStart (s : Sides) (a b : Edit) : Nat :=
  s.prefixLength a.oldStart b.newStart (min a.oldCount b.newCount)

/-- How many lines the old run of one edit and the new run of another end with in common. -/
def commonEnd (s : Sides) (a b : Edit) : Nat :=
  s.suffixLength a.oldEnd b.newEnd (min a.oldCount b.newCount)

end Sides

end AttributeRegistry.Diff
