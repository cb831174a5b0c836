import AttributeRegistry.Diff.Edit

/-!
# Shortest edit scripts

Myers' algorithm in linear space. Two runs of lines are compared from both ends at once: the paths
with `d` edits from the beginning and from the end, each as far as it gets on every diagonal, until
they meet. Where they meet the problem is split in two.

A split that does not make the problem smaller is not used; the lines are then removed and inserted
as a whole.
-/

namespace AttributeRegistry.Diff

/-- A run of old lines and a run of new lines. -/
structure Box where
  oldStart : Nat
  oldEnd : Nat
  newStart : Nat
  newEnd : Nat
deriving Repr

namespace Box

/-- The number of old lines. -/
def oldCount (b : Box) : Nat :=
  b.oldEnd - b.oldStart

/-- The number of new lines. -/
def newCount (b : Box) : Nat :=
  b.newEnd - b.newStart

/-- The number of all lines. -/
def size (b : Box) : Nat :=
  b.oldCount + b.newCount

end Box

/-! ## Furthest paths -/

/-- How far the paths with a number of edits get, by diagonal. -/
structure Furthest where
  offset : Nat
  reach : Array Nat

namespace Furthest

/-- Before the first step; diagonals up to `limit` on both sides fit. -/
def start (limit : Nat) : Furthest :=
  ⟨limit + 1, Array.replicate (2 * limit + 3) 0⟩

/-- The reach on a diagonal. -/
def get (f : Furthest) (k : Int) : Nat :=
  f.reach.getD (k + f.offset).toNat 0

/-- Notes the reach on a diagonal. -/
def set (f : Furthest) (k : Int) (x : Nat) : Furthest :=
  { f with reach := f.reach.setIfInBounds (k + f.offset).toNat x }

/-- Where a path with `d` edits enters a diagonal: from the neighbour that gets further. -/
def enter (f : Furthest) (d : Nat) (k : Int) : Nat :=
  if k = -d || (k ≠ d && f.get (k - 1) < f.get (k + 1)) then f.get (k + 1) else f.get (k - 1) + 1

end Furthest

/-- The search for the middle of a box. -/
structure Search where
  sides : Sides
  box : Box

namespace Search

/-- The difference of the runs' lengths: the diagonal on which the last corner lies. -/
def delta (s : Search) : Int :=
  (s.box.oldCount : Int) - s.box.newCount

/-- Paths from the beginning, on the diagonals `d`, `d - 2`, … that `steps` more leave; `odd` says
that they may meet the paths from the end. Gives the place where they meet, if they do. -/
def forward (s : Search) (d : Nat) (odd : Bool) (back : Furthest) :
    Nat → Int → Furthest → Furthest × Option (Nat × Nat)
  | 0, _, f => (f, none)
  | steps + 1, k, f =>
    let x := f.enter d k
    let y := (x : Int) - k
    let run :=
      if x < s.box.oldCount && 0 ≤ y && y < s.box.newCount then
        s.sides.prefixLength (s.box.oldStart + x) (s.box.newStart + y.toNat)
          (min (s.box.oldCount - x) (s.box.newCount - y.toNat))
      else 0
    let f := f.set k (x + run)
    if odd && (k - s.delta).natAbs + 1 ≤ d && s.box.oldCount ≤ x + run + back.get (-(k - s.delta))
    then (f, some (s.box.oldStart + x, s.box.newStart + y.toNat))
    else s.forward d odd back steps (k - 2) f

/-- Paths from the end, likewise. -/
def backward (s : Search) (d : Nat) (odd : Bool) (ahead : Furthest) :
    Nat → Int → Furthest → Furthest × Option (Nat × Nat)
  | 0, _, f => (f, none)
  | steps + 1, k, f =>
    let x := f.enter d k
    let y := (x : Int) - k
    let run :=
      if x < s.box.oldCount && 0 ≤ y && y < s.box.newCount then
        s.sides.suffixLength (s.box.oldEnd - x) (s.box.newEnd - y.toNat)
          (min (s.box.oldCount - x) (s.box.newCount - y.toNat))
      else 0
    let f := f.set k (x + run)
    if !odd && (k - s.delta).natAbs ≤ d && s.box.oldCount ≤ x + run + ahead.get (-(k - s.delta))
    then (f, some (s.box.oldEnd - (x + run), s.box.newEnd - (y + run).toNat))
    else s.backward d odd ahead steps (k - 2) f

/-- Paths with `d` edits and more, from both ends in turn. -/
def meet (s : Search) : Nat → Nat → Furthest → Furthest → Option (Nat × Nat)
  | 0, _, _, _ => none
  | rounds + 1, d, ahead, back =>
    let odd := s.delta % 2 ≠ 0
    match s.forward d odd back (d + 1) d ahead with
    | (_, some place) => some place
    | (ahead, none) =>
      match s.backward d odd ahead (d + 1) d back with
      | (_, some place) => some place
      | (back, none) => s.meet rounds (d + 1) ahead back

/-- The place where the paths from both ends meet. -/
def middle (s : Search) : Option (Nat × Nat) :=
  let limit := (s.box.size + 1) / 2 + 1
  s.meet limit 0 (.start limit) (.start limit)

end Search

/-! ## Scripts -/

/-- Removes the old lines of a box and inserts the new ones. -/
def overwrite (b : Box) : List Edit :=
  [.removing b.oldStart b.oldCount b.newStart, .inserting b.oldStart b.newStart b.newCount]

/-- An edit that keeps lines, unless there are none. -/
def keepIfAny (oldStart newStart count : Nat) : List Edit :=
  if count = 0 then [] else [.keeping oldStart newStart count]

/-- The script of a box with at most `depth` splits one inside the other. -/
def scriptOf (sides : Sides) : Nat → Box → List Edit
  | 0, b => overwrite b
  | depth + 1, b =>
    let head := sides.prefixLength b.oldStart b.newStart (min b.oldCount b.newCount)
    let oldStart := b.oldStart + head
    let newStart := b.newStart + head
    let tail := sides.suffixLength b.oldEnd b.newEnd
      (min (b.oldEnd - oldStart) (b.newEnd - newStart))
    let inner : Box := ⟨oldStart, b.oldEnd - tail, newStart, b.newEnd - tail⟩
    let between :=
      if inner.oldCount = 0 && inner.newCount = 0 then []
      else if inner.newCount = 0 then [.removing inner.oldStart inner.oldCount inner.newStart]
      else if inner.oldCount = 0 then [.inserting inner.oldStart inner.newStart inner.newCount]
      else match (Search.mk sides inner).middle with
        | none => overwrite inner
        | some (x, y) =>
          let first : Box := ⟨inner.oldStart, x, inner.newStart, y⟩
          let second : Box := ⟨x, inner.oldEnd, y, inner.newEnd⟩
          scriptOf sides depth first ++ scriptOf sides depth second
    keepIfAny b.oldStart b.newStart head ++ between
      ++ keepIfAny inner.oldEnd inner.newEnd tail

/-- A shortest script for all lines. -/
def script (sides : Sides) : List Edit :=
  let b : Box := ⟨0, sides.old.size, 0, sides.new.size⟩
  scriptOf sides (b.size + 1) b

end AttributeRegistry.Diff
