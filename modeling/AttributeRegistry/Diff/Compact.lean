import AttributeRegistry.Diff.Edit

/-!
# Joining edits

Shifts removals, then insertions, up and down as long as the lines around them allow it, so that
edits of a kind meet and become one. Afterwards neighbouring edits are merged: a removal and an
insertion next to each other become a replacement.
-/

namespace AttributeRegistry.Diff

/-- A script seen from one of its edits; the edits before it are listed from the nearest one on. -/
structure Focus where
  before : List Edit
  here : Edit
  after : List Edit

namespace Focus

/-- All edits of the script. -/
def toList (f : Focus) : List Edit :=
  f.before.reverse ++ f.here :: f.after

/-- Keeps `n` lines in front of what follows. -/
def keepAfter (f : Focus) (oldEnd newEnd n : Nat) : List Edit :=
  match f.after with
  | e :: es =>
    if e.kind = .keep then (e.up n).grow n :: es
    else .keeping (oldEnd - n) (newEnd - n) n :: e :: es
  | [] => [.keeping (oldEnd - n) (newEnd - n) n]

/-- Keeps `n` lines behind what comes before. -/
def keepBefore (f : Focus) (oldStart newStart n : Nat) : List Edit :=
  match f.before with
  | e :: es =>
    if e.kind = .keep then e.grow n :: es else .keeping oldStart newStart n :: e :: es
  | [] => [.keeping oldStart newStart n]

/-- An edit in front of others, unless it is empty. -/
def consUnlessEmpty (e : Edit) (es : List Edit) : List Edit :=
  if e.isEmpty then es else e :: es

/-- Shifts the edit up as far as possible, in at most some steps. -/
def shiftUp (s : Sides) : Nat → Focus → Focus
  | 0, f => f
  | steps + 1, f =>
    match f.before with
    | [] => f
    | e :: es =>
      if e.kind = .keep then
        let n := s.commonEnd e f.here
        if n = 0 then
          if e.isEmpty then shiftUp s steps { f with before := es } else f
        else
          shiftUp s steps
            { before := consUnlessEmpty (e.shrink n) es
              here := f.here.up n
              after := f.keepAfter e.oldEnd f.here.newEnd n }
      else if e.kind = f.here.kind then
        shiftUp s steps
          { f with before := es, here := e.grow (f.here.oldCount + f.here.newCount) }
      else shiftUp s steps { f with before := es, after := e :: f.after }

/-- Shifts the edit down as far as possible, in at most some steps. -/
def shiftDown (s : Sides) : Nat → Focus → Focus
  | 0, f => f
  | steps + 1, f =>
    match f.after with
    | [] => f
    | e :: es =>
      if e.kind = .keep then
        let n := s.commonStart e f.here
        if n = 0 then
          if e.isEmpty then shiftDown s steps { f with after := es } else f
        else
          shiftDown s steps
            { before := f.keepBefore e.oldStart f.here.newStart n
              here := f.here.down n
              after := consUnlessEmpty ((e.down n).shrink n) es }
      else if e.kind = f.here.kind then
        shiftDown s steps { f with here := f.here.grow (e.oldCount + e.newCount), after := es }
      else shiftDown s steps { f with before := e :: f.before, after := es }

/-- Shifts the edits of a kind from the one in view on; `reach` bounds the steps of each shift. -/
def shiftAll (s : Sides) (kind : EditKind) (reach : Nat) : Nat → Focus → List Edit
  | 0, f => f.toList
  | steps + 1, f =>
    let f := if f.here.kind = kind then shiftDown s reach (shiftUp s reach f) else f
    match f.after with
    | [] => f.toList
    | e :: es => shiftAll s kind reach steps ⟨f.here :: f.before, e, es⟩

end Focus

/-- Shifts the edits of a kind. -/
def shiftKind (s : Sides) (kind : EditKind) (es : List Edit) : List Edit :=
  let reach := 2 * (s.old.size + s.new.size + es.length) + 4
  match es with
  | [] => []
  | e :: es => Focus.shiftAll s kind reach (reach * reach) ⟨[], e, es⟩

/-! ## Merging -/

/-- The edits that are to become one. -/
structure Merge where
  keep : Option Edit
  remove : Option Edit
  insert : Option Edit

namespace Merge

/-- Nothing to merge. -/
def empty : Merge :=
  ⟨none, none, none⟩

/-- The change that was collected. -/
def change (m : Merge) : List Edit :=
  match m.remove, m.insert with
  | some r, some i => [⟨.replace, r.oldStart, r.oldCount, i.newStart, i.newCount⟩]
  | some r, none => [r]
  | none, some i => [i]
  | none, none => []

/-- An edit joined to one of its kind that was collected before. -/
def join (e : Edit) : Option Edit → Option Edit
  | none => some e
  | some before => some (before.grow (max e.oldCount e.newCount))

/-- Takes in an edit; gives those that are complete. -/
def add (m : Merge) (e : Edit) : List Edit × Merge :=
  match e.kind with
  | .remove => (m.keep.toList, { m with keep := none, remove := join e m.remove })
  | .insert => (m.keep.toList, { m with keep := none, insert := join e m.insert })
  | _ => (m.change, ⟨join e m.keep, none, none⟩)

end Merge

/-- Merges neighbouring edits. -/
def mergeFrom (m : Merge) : List Edit → List Edit
  | [] => m.keep.toList ++ m.change
  | e :: es =>
    let (done, m) := m.add e
    done ++ mergeFrom m es

/-- A script with its edits joined. -/
def compact (s : Sides) (es : List Edit) : List Edit :=
  mergeFrom .empty (shiftKind s .insert (shiftKind s .remove es))

end AttributeRegistry.Diff
