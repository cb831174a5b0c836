/-!
# Lines and parts of a text

A text is cut into lines at each line feed; a carriage return before the line feed belongs to the
line end, and a last line without a line feed keeps every character it has. `splitOn` cuts at a
separator character, and `replaceAll` exchanges the non-overlapping occurrences of a pattern, found
from the left.
-/

namespace AttributeRegistry.Text

/-- Cuts a text at every occurrence of a character; a text without it is one part. -/
def splitOn (sep : Char) : List Char → List (List Char)
  | [] => [[]]
  | c :: cs =>
    if c = sep then [] :: splitOn sep cs
    else match splitOn sep cs with
      | [] => [[c]]
      | part :: parts => (c :: part) :: parts

theorem splitOn_ne_nil (sep : Char) (cs : List Char) : splitOn sep cs ≠ [] := by
  cases cs with
  | nil => simp [splitOn]
  | cons c cs =>
    simp only [splitOn]
    split
    · simp
    · split <;> simp

/-- Puts parts together with a separator between neighbours. -/
def joinWith (sep : List Char) : List (List Char) → List Char
  | [] => []
  | [part] => part
  | part :: next :: parts => part ++ sep ++ joinWith sep (next :: parts)

theorem joinWith_splitOn (sep : Char) (cs : List Char) :
    joinWith [sep] (splitOn sep cs) = cs := by
  induction cs with
  | nil => rfl
  | cons c cs ih =>
    simp only [splitOn]
    cases hs : splitOn sep cs with
    | nil => exact absurd hs (splitOn_ne_nil sep cs)
    | cons part parts =>
      rw [hs] at ih
      split
      · next h => simp [joinWith, ih, h]
      · cases parts with
        | nil => simp [joinWith] at ih ⊢; exact ih
        | cons p ps => simp [joinWith] at ih ⊢; exact ih

/-- The part of a text before the first line feed, and what follows that line feed if there is one. -/
def breakLine : List Char → List Char × Option (List Char)
  | [] => ([], none)
  | '\n' :: cs => ([], some cs)
  | c :: cs =>
    let (line, rest) := breakLine cs
    (c :: line, rest)

theorem breakLine_length (cs rest : List Char) (h : (breakLine cs).2 = some rest) :
    rest.length < cs.length := by
  induction cs with
  | nil => simp [breakLine] at h
  | cons c cs ih =>
    unfold breakLine at h
    split at h
    · simp at h
    · next heq => simp_all
    · next heq =>
      simp only [List.cons.injEq] at heq
      obtain ⟨rfl, rfl⟩ := heq
      have := ih h
      simp; omega

/-- Drops one carriage return at the end of a line. -/
def dropReturn (line : List Char) : List Char :=
  match line.reverse with
  | '\r' :: before => before.reverse
  | _ => line

/-- The lines of a text, without their line ends. -/
def lines (cs : List Char) : List (List Char) :=
  match _h : breakLine cs with
  | (line, some rest) => dropReturn line :: lines rest
  | ([], none) => []
  | (line, none) => [line]
termination_by cs.length
decreasing_by exact breakLine_length cs rest (by rw [_h])

/-- Lines with a line feed behind each. -/
def unlines (lines : List (List Char)) : List Char :=
  lines.flatMap fun line => line ++ ['\n']

/-! ## Patterns -/

/-- What is left of a text behind a given beginning. -/
def dropBeginning? : List Char → List Char → Option (List Char)
  | [], cs => some cs
  | _ :: _, [] => none
  | p :: ps, c :: cs => if p = c then dropBeginning? ps cs else none

theorem dropBeginning?_length {ps cs rest : List Char} (h : dropBeginning? ps cs = some rest) :
    rest.length + ps.length = cs.length := by
  induction ps generalizing cs with
  | nil => simp_all [dropBeginning?]
  | cons p ps ih =>
    cases cs with
    | nil => simp [dropBeginning?] at h
    | cons c cs =>
      simp only [dropBeginning?] at h
      split at h
      · have := ih h; simp; omega
      · simp at h

/-- Exchanges the non-overlapping occurrences of the pattern `p :: ps`, found from the left. -/
def replaceAll (p : Char) (ps new : List Char) (cs : List Char) : List Char :=
  match cs with
  | [] => []
  | c :: rest =>
    if c = p then
      match _h : dropBeginning? ps rest with
      | some after => new ++ replaceAll p ps new after
      | none => c :: replaceAll p ps new rest
    else c :: replaceAll p ps new rest
termination_by cs.length
decreasing_by
  all_goals simp
  have := dropBeginning?_length _h
  omega

/-- Joins strings with a separator between neighbours. -/
def commaList (parts : List String) : String :=
  String.intercalate ", " parts

end AttributeRegistry.Text
