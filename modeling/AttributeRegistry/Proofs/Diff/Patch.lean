import AttributeRegistry.Proofs.Text.Lines

/-!
# Patches

What a unified diff means to those who read it: `readPatch` gets the hunks from its text, and
`applyPatch` replays them on a text. The header of a hunk says how many lines there are before it and
how many it covers; its lines have to agree with these numbers and with the text. A line without a line
end is followed by a remark.

Read the other way round (`Hunk.swap`) a patch undoes what it does (`Patches.swap`).
-/

namespace AttributeRegistry.Diff

open Text

/-! ## Hunks and their text -/

/-- A line of a hunk. -/
inductive HunkLine where
  | context (line : List Char)
  | removed (line : List Char)
  | inserted (line : List Char)
deriving DecidableEq, Repr

namespace HunkLine

/-- The line in the old text. -/
def old? : HunkLine → Option (List Char)
  | context line | removed line => some line
  | inserted _ => none

/-- The line in the new text. -/
def new? : HunkLine → Option (List Char)
  | context line | inserted line => some line
  | removed _ => none

/-- The line read the other way round. -/
def swap : HunkLine → HunkLine
  | context line => context line
  | removed line => inserted line
  | inserted line => removed line

end HunkLine

/-- A hunk: how many lines are before it in both texts, how many it covers, and its lines. -/
structure Hunk where
  oldStart : Nat
  oldCount : Nat
  newStart : Nat
  newCount : Nat
  lines : List HunkLine
deriving DecidableEq, Repr

namespace Hunk

/-- The lines of the hunk in the old text. -/
def before (h : Hunk) : List (List Char) :=
  h.lines.filterMap HunkLine.old?

/-- The lines of the hunk in the new text. -/
def after (h : Hunk) : List (List Char) :=
  h.lines.filterMap HunkLine.new?

/-- The hunk read the other way round. -/
def swap (h : Hunk) : Hunk :=
  ⟨h.newStart, h.newCount, h.oldStart, h.oldCount, h.lines.map HunkLine.swap⟩

/-- The hunk has as many lines as its header says. -/
def Counted (h : Hunk) : Prop :=
  h.before.length = h.oldCount ∧ h.after.length = h.newCount

instance (h : Hunk) : Decidable h.Counted :=
  inferInstanceAs (Decidable (_ ∧ _))

end Hunk

/-- Cuts a text behind every line end. -/
def cutLines : List Char → List (List Char)
  | [] => []
  | c :: cs =>
    if c = '\n' then [c] :: cutLines cs
    else match cutLines cs with
      | [] => [[c]]
      | line :: lines => (c :: line) :: lines

/-- The remark behind a line without a line end. -/
def remark : List Char :=
  "\\ No newline at end of file\n".toList

/-- Takes the line end from every line with the remark behind it, and the remark away. -/
def obeyRemarks : List (List Char) → List (List Char)
  | line :: next :: rest =>
    if next = remark then line.dropLast :: obeyRemarks rest else line :: obeyRemarks (next :: rest)
  | lines => lines

/-- Reads a number. -/
def readNumber (cs : List Char) : Option Nat :=
  if cs ≠ [] ∧ cs.all Char.isDigit then some (Nat.ofDigitChars 10 cs 0) else none

/-- How many lines are before some lines, from the number of the first one. No lines have the number of
the line before them. -/
def linesBefore (first count : Nat) : Option Nat :=
  if count = 0 then some first else if first = 0 then none else some (first - 1)

/-- Reads the place of some lines: how many are before them, and how many there are. -/
def readPlace (cs : List Char) : Option (Nat × Nat) :=
  match splitOn ',' cs with
  | [first] => do
    let start ← linesBefore (← readNumber first) 1
    return (start, 1)
  | [first, count] => do
    let count ← readNumber count
    let start ← linesBefore (← readNumber first) count
    return (start, count)
  | _ => none

/-- Reads the header of a hunk. -/
def readHeader (line : List Char) : Option Hunk :=
  match splitOn ' ' line with
  | [['@', '@'], '-' :: old, '+' :: new, ['@', '@', '\n']] => do
    let (oldStart, oldCount) ← readPlace old
    let (newStart, newCount) ← readPlace new
    return ⟨oldStart, oldCount, newStart, newCount, []⟩
  | _ => none

/-- Reads a line of a hunk. -/
def readLine : List Char → Option HunkLine
  | ' ' :: line => some (.context line)
  | '-' :: line => some (.removed line)
  | '+' :: line => some (.inserted line)
  | _ => none

/-- Reads hunks; gives the lines before the first header as well. -/
def readHunks : List (List Char) → Option (List HunkLine × List Hunk)
  | [] => some ([], [])
  | line :: rest => do
    let (lines, hunks) ← readHunks rest
    match readLine line with
    | some l => some (l :: lines, hunks)
    | none => do
      let h ← readHeader line
      return ([], { h with lines } :: hunks)

/-- The lines above the hunks. -/
def heading (fileName : String) : String :=
  "--- a/" ++ fileName ++ "\n+++ b/" ++ fileName ++ "\n"

/-- Reads the patch of a file. -/
def readPatch (fileName diff : String) : Option (List Hunk) := do
  let body ← dropBeginning? (heading fileName).toList diff.toList
  match ← readHunks (obeyRemarks (cutLines body)) with
  | ([], hunks) => some hunks
  | _ => none

/-! ## Replaying hunks -/

/-- Some lines of a text. -/
def slice (lines : List (List Char)) (start count : Nat) : List (List Char) :=
  (lines.drop start).take count

/-- Replays hunks on the rest of a text, which has `i` lines before it. -/
def replay (i : Nat) (rest : List (List Char)) : List Hunk → Option (List (List Char))
  | [] => some rest
  | h :: hs =>
    if h.Counted ∧ i ≤ h.oldStart ∧ h.oldStart + h.oldCount ≤ i + rest.length ∧
        slice rest (h.oldStart - i) h.oldCount = h.before then
      (replay (h.oldStart + h.oldCount) (rest.drop (h.oldStart - i + h.oldCount)) hs).map
        fun lines => rest.take (h.oldStart - i) ++ h.after ++ lines
    else none

/-- Applies a patch to a text. -/
def applyPatch (hs : List Hunk) (text : String) : Option String :=
  (replay 0 (cutLines text.toList) hs).map fun lines => String.ofList lines.flatten

variable {old new rest : List (List Char)} {h : Hunk} {hs : List Hunk} {i j m n : Nat}

/-! ## Slices -/

theorem slice_zero : slice rest i 0 = [] :=
  List.take_zero

theorem slice_add : slice rest i (m + n) = slice rest i m ++ slice rest (i + m) n := by
  rw [slice, slice, slice, List.take_add, List.drop_drop]

theorem slice_append_drop : slice rest i n ++ rest.drop (i + n) = rest.drop i := by
  rw [slice, ← List.drop_drop, List.take_append_drop]

theorem slice_drop : slice (rest.drop i) m n = slice rest (i + m) n := by
  rw [slice, slice, List.drop_drop]

theorem length_slice (h : i + n ≤ rest.length) : (slice rest i n).length = n := by
  rw [slice, List.length_take, List.length_drop]
  omega

/-! ## Patches that fit -/

/-- Hunks turn one list of lines into another from two places on: their headers are right, and between
them the lists are the same. -/
inductive Patches (old new : List (List Char)) : List Hunk → Nat → Nat → Prop
  | nil {i j : Nat} (same : old.drop i = new.drop j) : Patches old new [] i j
  | cons {h : Hunk} {hs : List Hunk} {i j n : Nat} (gap : slice old i n = slice new j n)
      (oldStart : h.oldStart = i + n) (newStart : h.newStart = j + n)
      (oldFits : h.oldStart + h.oldCount ≤ old.length)
      (newFits : h.newStart + h.newCount ≤ new.length)
      (before : h.before = slice old h.oldStart h.oldCount)
      (after : h.after = slice new h.newStart h.newCount)
      (rest : Patches old new hs (h.oldStart + h.oldCount) (h.newStart + h.newCount)) :
      Patches old new (h :: hs) i j

namespace Hunk

@[simp] theorem before_swap (h : Hunk) : h.swap.before = h.after := by
  rw [before, after, swap, List.filterMap_map]
  congr 1
  funext l
  cases l <;> rfl

@[simp] theorem after_swap (h : Hunk) : h.swap.after = h.before := by
  rw [before, after, swap, List.filterMap_map]
  congr 1
  funext l
  cases l <;> rfl

end Hunk

/-- **A patch that fits undoes what it does when it is read the other way round.** -/
theorem Patches.swap (h : Patches old new hs i j) : Patches new old (hs.map Hunk.swap) j i := by
  induction h with
  | nil same => exact .nil same.symm
  | @cons h hs i j n gap oldStart newStart oldFits newFits before after _ ih =>
    exact .cons gap.symm newStart oldStart newFits oldFits (h.before_swap.trans after)
      (h.after_swap.trans before) ih

/-- **A patch that fits turns the old lines into the new ones.** -/
theorem Patches.replay_eq (h : Patches old new hs i j) :
    replay i (old.drop i) hs = some (new.drop j) := by
  induction h with
  | nil same => rw [replay, same]
  | @cons h hs i j n gap oldStart newStart oldFits newFits before after _ ih =>
    have hcounted : h.Counted := by
      rw [Hunk.Counted, before, after]
      exact ⟨length_slice oldFits, length_slice newFits⟩
    have hplace : h.oldStart - i = n := by omega
    have hfits : h.oldStart + h.oldCount ≤ i + (old.drop i).length := by
      rw [List.length_drop]
      omega
    have hlines : slice (old.drop i) n h.oldCount = h.before := by
      rw [slice_drop, ← oldStart, before]
    rw [replay, hplace, if_pos ⟨hcounted, by omega, hfits, hlines⟩, List.drop_drop,
      ← Nat.add_assoc, ← oldStart, ih, Option.map_some]
    have hgap : (old.drop i).take n = slice new j n := gap
    rw [hgap, after, List.append_assoc, slice_append_drop, newStart, slice_append_drop]

/-- What replaying checks of every hunk. -/
theorem counted_of_replay {out : List (List Char)} (hi : i ≤ old.length)
    (hreplay : replay i (old.drop i) hs = some out) :
    ∀ h ∈ hs, h.Counted ∧ h.oldStart + h.oldCount ≤ old.length := by
  induction hs generalizing i out with
  | nil => simp
  | cons h hs ih =>
    rw [replay] at hreplay
    split at hreplay
    · next hfits =>
      obtain ⟨hcounted, hle, hend, -⟩ := hfits
      rw [List.length_drop] at hend
      obtain ⟨lines, hrest, -⟩ := Option.map_eq_some_iff.mp hreplay
      rw [List.drop_drop, show i + (h.oldStart - i + h.oldCount) = h.oldStart + h.oldCount by omega]
        at hrest
      intro h' hh'
      rcases List.mem_cons.mp hh' with rfl | hh'
      · exact ⟨hcounted, by omega⟩
      · exact ih (by omega) hrest h' hh'
    · cases hreplay

end AttributeRegistry.Diff
