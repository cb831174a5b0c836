import AttributeRegistry.Diff.Unified
import AttributeRegistry.Proofs.Diff.Patch
import AttributeRegistry.Proofs.Text.Digits
import Mathlib.Data.List.Basic

/-!
# Unified diffs read back

Reading the text of a unified diff gives its hunks: the numbers of a header are read back
(`readHeader_hunkHeader`), and obeying the remarks gives the lines as they were before the remarks were
put in (`obeyRemarks_cutLines`). The lines of the texts must not have carriage returns: one of these is
a line end to the writer and a character like others to those who read.

Main statement: `readPatch_unified`.
-/

namespace AttributeRegistry.Diff

open Text

/-! ## Lines and remarks -/

/-- There is no line end in a line but at its end. -/
def OneLine (line : List Char) : Prop :=
  '\n' ∉ line.dropLast

variable {cs line rest : List Char} {lines : List (List Char)} {c : Char}

theorem OneLine.cons (h : OneLine line) (hc : c ≠ '\n') : OneLine (c :: line) := by
  cases line with
  | nil => exact List.not_mem_nil
  | cons d line =>
    rw [OneLine, List.dropLast_cons_cons, List.mem_cons, not_or]
    exact ⟨hc.symm, h⟩

theorem flatten_cutLines (cs : List Char) : (cutLines cs).flatten = cs := by
  fun_induction cutLines cs with
  | case1 => rfl
  | case2 cs ih => rw [List.flatten_cons, ih, List.singleton_append]
  | case3 c cs _ hlines ih =>
    rw [hlines] at ih
    rw [← ih]
    rfl
  | case4 c cs _ line lines hlines ih =>
    rw [hlines] at ih
    rw [← ih]
    rfl

theorem cutLines_append_cons (h : '\n' ∉ line) (rest : List Char) :
    cutLines (line ++ '\n' :: rest) = (line ++ ['\n']) :: cutLines rest := by
  induction line with
  | nil => rw [List.nil_append, cutLines, if_pos rfl, List.nil_append]
  | cons c line ih =>
    rw [List.mem_cons, not_or] at h
    rw [List.cons_append, cutLines, if_neg (Ne.symm h.1), ih h.2]
    rfl

/-- What is cut off is not empty, and one line. -/
theorem oneLine_of_mem_cutLines (h : line ∈ cutLines cs) : line ≠ [] ∧ OneLine line := by
  fun_induction cutLines cs generalizing line with
  | case1 => cases h
  | case2 cs ih =>
    rcases List.mem_cons.mp h with rfl | h
    · exact ⟨by simp, List.not_mem_nil⟩
    · exact ih h
  | case3 c cs hc hlines ih =>
    obtain rfl := List.mem_singleton.mp h
    exact ⟨by simp, List.not_mem_nil⟩
  | case4 c cs hc l lines hlines ih =>
    rw [hlines] at ih
    rcases List.mem_cons.mp h with rfl | h
    · exact ⟨by simp, (ih List.mem_cons_self).2.cons hc⟩
    · exact ih (List.mem_cons_of_mem _ h)

/-- Without carriage returns, lines end where the text is cut. -/
theorem splitLines_eq (h : '\r' ∉ cs) : splitLines cs = cutLines cs := by
  induction cs with
  | nil => rfl
  | cons c cs ih =>
    rw [List.mem_cons, not_or] at h
    have hc : c ≠ '\r' := Ne.symm h.1
    rw [splitLines, cutLines, ih h.2]
    · refine if_congr (or_iff_right hc) rfl ?_
      cases cutLines cs <;> rfl
    · rintro rest rfl
      exact absurd rfl hc

/-- A line with the remark behind it if it has no line end. -/
def marked (line : List Char) : List Char :=
  if line.getLast? = some '\n' then line else line ++ '\n' :: remark

theorem cutLines_marked (hne : line ≠ []) (h : OneLine line) (rest : List Char) :
    cutLines (marked line ++ rest) = if line.getLast? = some '\n' then line :: cutLines rest
      else (line ++ ['\n']) :: remark :: cutLines rest := by
  have hcut := cutLines_append_cons (show '\n' ∉ line.dropLast from h)
  have hlast := List.dropLast_concat_getLast hne
  rw [marked]
  split
  · next hended =>
    rw [List.getLast?_eq_some_getLast hne, Option.some.injEq] at hended
    rw [hended] at hlast
    calc cutLines (line ++ rest) = cutLines (line.dropLast ++ '\n' :: rest) := by
          rw [← List.singleton_append, ← List.append_assoc, hlast]
      _ = line :: cutLines rest := by rw [hcut, hlast]
  · next hended =>
    rw [List.getLast?_eq_some_getLast hne, Option.some.injEq] at hended
    have hplain : '\n' ∉ line := by
      rw [← hlast, List.mem_append, not_or, List.mem_singleton]
      exact ⟨h, Ne.symm hended⟩
    have hremark : cutLines (remark ++ rest) = remark :: cutLines rest := by
      have hsplit : remark = "\\ No newline at end of file".toList ++ ['\n'] := by decide
      rw [hsplit, List.append_assoc, List.singleton_append, cutLines_append_cons (by decide)]
    rw [List.append_assoc, List.cons_append, cutLines_append_cons hplain, hremark]

theorem head?_of_mem_head?_cutLines (h : line ∈ (cutLines cs).head?) : line.head? = cs.head? := by
  cases cs with
  | nil => cases h
  | cons c cs =>
    rw [cutLines] at h
    split at h
    · cases h
      rfl
    · split at h <;> cases h <;> rfl

theorem obeyRemarks_cons (h : ∀ next ∈ lines.head?, next ≠ remark) :
    obeyRemarks (line :: lines) = line :: obeyRemarks lines := by
  cases lines with
  | nil => rfl
  | cons next lines => rw [obeyRemarks, if_neg (h next rfl)]

/-- **Lines are read back from their text, with the remarks obeyed.** -/
theorem obeyRemarks_cutLines
    (h : ∀ line ∈ lines, line ≠ [] ∧ OneLine line ∧ line.head? ≠ some '\\') :
    obeyRemarks (cutLines (lines.flatMap marked)) = lines := by
  induction lines with
  | nil => rfl
  | cons line lines ih =>
    obtain ⟨hline, hrest⟩ := List.forall_mem_cons.mp h
    rw [List.flatMap_cons, cutLines_marked hline.1 hline.2.1]
    split
    · rw [obeyRemarks_cons, ih hrest]
      -- The next line is no remark: it does not begin like one.
      rintro next hnext rfl
      have hhead := head?_of_mem_head?_cutLines hnext
      cases lines with
      | nil => cases hnext
      | cons line lines =>
        have hline := (List.forall_mem_cons.mp hrest).1
        refine hline.2.2 (Eq.trans ?_ hhead.symm)
        obtain ⟨c, cs, rfl⟩ := List.exists_cons_of_ne_nil hline.1
        rw [List.flatMap_cons, marked]
        split <;> rfl
    · rw [obeyRemarks, if_pos rfl, List.dropLast_concat, ih hrest]

/-! ## Headers -/

theorem readNumber_natText (n : Nat) : readNumber (toString n).toList = some n := by
  rw [readNumber, if_pos ⟨natText_ne_nil n, List.all_eq_true.mpr isDigit_of_mem_natText⟩,
    ofDigitChars_natText]

/-- The text of a place consists of digits and commas. -/
theorem not_mem_place {start stop : Nat} (hdigit : c.isDigit = false) (hcomma : c ≠ ',') :
    c ∉ (place start stop).toList := by
  have hnumber : ∀ n : Nat, c ∉ (toString n).toList := by
    intro n hmem
    rw [isDigit_of_mem_natText c hmem] at hdigit
    cases hdigit
  rw [place]
  split
  · exact hnumber _
  · rw [String.toList_append, String.toList_append, List.mem_append, List.mem_append, not_or, not_or]
    exact ⟨⟨hnumber _, by simpa using hcomma⟩, hnumber _⟩

theorem readPlace_place (start stop : Nat) :
    readPlace (place start stop).toList = some (start, stop - start) := by
  have hcomma : ∀ n : Nat, ',' ∉ (toString n).toList :=
    fun n hmem => absurd (isDigit_of_mem_natText ',' hmem) (by decide)
  rw [place]
  split
  · next hone =>
    rw [readPlace, splitOn_eq_singleton (hcomma _)]
    dsimp only
    rw [readNumber_natText, hone]
    rfl
  · next hone =>
    have htext : ∀ n : Nat, (toString n ++ "," ++ toString (stop - start)).toList =
        (toString n).toList ++ ',' :: (toString (stop - start)).toList := by
      intro n
      rw [String.toList_append, String.toList_append, List.append_assoc]
      rfl
    rw [readPlace, htext, splitOn_append_cons, splitOn_eq_singleton (hcomma _),
      splitOn_eq_singleton (hcomma _)]
    dsimp only [List.cons_append, List.nil_append]
    rw [readNumber_natText, readNumber_natText]
    by_cases hnone : stop - start = 0
    · simp [linesBefore, hnone]
    · simp [linesBefore, hnone]

theorem toList_hunkHeader (first last : Edit) : (hunkHeader first last).toList = ['@', '@'] ++ ' ' ::
    (('-' :: (place first.oldStart last.oldEnd).toList) ++ ' ' ::
      (('+' :: (place first.newStart last.newEnd).toList) ++ ' ' :: ['@', '@', '\n'])) := by
  simp only [hunkHeader, String.toList_append, List.append_assoc]
  rfl

/-- **The numbers of a header are read back.** -/
theorem readHeader_hunkHeader (first last : Edit) : readHeader (hunkHeader first last).toList =
    some ⟨first.oldStart, last.oldEnd - first.oldStart, first.newStart, last.newEnd - first.newStart,
      []⟩ := by
  have hplace : ∀ c start stop, c ≠ ' ' → ' ' ∉ c :: (place start stop).toList := by
    intro c start stop hc
    rw [List.mem_cons, not_or]
    exact ⟨hc.symm, not_mem_place (by decide) (by decide)⟩
  have hsplit : splitOn ' ' (hunkHeader first last).toList = [['@', '@'],
      '-' :: (place first.oldStart last.oldEnd).toList,
      '+' :: (place first.newStart last.newEnd).toList, ['@', '@', '\n']] := by
    rw [toList_hunkHeader, splitOn_append_cons, splitOn_append_cons, splitOn_append_cons,
      splitOn_eq_singleton (hplace '-' _ _ (by decide)),
      splitOn_eq_singleton (hplace '+' _ _ (by decide))]
    rfl
  simp [readHeader, hsplit, readPlace_place]

/-! ## Hunks -/

namespace HunkLine

/-- A line of a hunk as it is written. -/
def text : HunkLine → List Char
  | context line => ' ' :: line
  | removed line => '-' :: line
  | inserted line => '+' :: line

end HunkLine

/-- The lines of the old text. -/
def Sides.oldLines (s : Sides) : List (List Char) :=
  s.old.toList.map String.toList

/-- The lines of the new text. -/
def Sides.newLines (s : Sides) : List (List Char) :=
  s.new.toList.map String.toList

/-- The lines of an edit. -/
def hunkLines (s : Sides) (e : Edit) : List HunkLine :=
  match e.kind with
  | .keep => (slice s.oldLines e.oldStart e.oldCount).map .context
  | _ => (slice s.oldLines e.oldStart e.oldCount).map .removed ++
      (slice s.newLines e.newStart e.newCount).map .inserted

/-- The hunk of some edits. -/
def hunkOf (s : Sides) (es : List Edit) : Hunk :=
  match es, es.getLast? with
  | first :: _, some last => ⟨first.oldStart, last.oldEnd - first.oldStart, first.newStart,
      last.newEnd - first.newStart, es.flatMap (hunkLines s)⟩
  | _, _ => ⟨0, 0, 0, 0, []⟩

/-- A hunk as it is written: its header and its lines, before remarks are put in. -/
def hunkPieces (s : Sides) (es : List Edit) : List (List Char) :=
  match es, es.getLast? with
  | first :: _, some last => (hunkHeader first last).toList ::
      (es.flatMap (hunkLines s)).map HunkLine.text
  | _, _ => []

variable {s : Sides} {es : List Edit} {hs : List (List Edit)}

theorem readHunks_lines {ls : List HunkLine} {after : List HunkLine} {hunks : List Hunk}
    (h : readHunks lines = some (after, hunks)) :
    readHunks (ls.map HunkLine.text ++ lines) = some (ls ++ after, hunks) := by
  induction ls with
  | nil => exact h
  | cons l ls ih =>
    have hline : readLine l.text = some l := by cases l <;> rfl
    rw [List.map_cons, List.cons_append, readHunks, ih]
    dsimp only [Option.bind_eq_bind, Option.bind_some]
    rw [hline]
    rfl

theorem readHunks_hunkPieces (hne : es ≠ []) {hunks : List Hunk}
    (h : readHunks lines = some ([], hunks)) :
    readHunks (hunkPieces s es ++ lines) = some ([], hunkOf s es :: hunks) := by
  obtain ⟨first, es, rfl⟩ := List.exists_cons_of_ne_nil hne
  have hlast : (first :: es).getLast? = some ((first :: es).getLast hne) :=
    List.getLast?_eq_some_getLast hne
  rw [hunkPieces.eq_def, hunkOf.eq_def, hlast]
  dsimp only
  generalize (first :: es).getLast hne = last
  rw [List.cons_append, readHunks, readHunks_lines h]
  dsimp only [Option.bind_eq_bind, Option.bind_some]
  have hheader : readLine (hunkHeader first last).toList = none := by
    rw [toList_hunkHeader]
    rfl
  rw [hheader, readHeader_hunkHeader, List.append_nil]
  rfl

theorem readHunks_flatMap (hne : ∀ es ∈ hs, es ≠ []) :
    readHunks (hs.flatMap (hunkPieces s)) = some ([], hs.map (hunkOf s)) := by
  induction hs with
  | nil => rfl
  | cons es hs ih =>
    obtain ⟨hes, hhs⟩ := List.forall_mem_cons.mp hne
    exact readHunks_hunkPieces hes (ih hhs)

/-! ## The whole diff -/

theorem isEnded_iff {line : String} (h : '\r' ∉ line.toList) :
    isEnded line = true ↔ line.toList.getLast? = some '\n' := by
  have hsuffix : ∀ c : Char, line.endsWith (String.singleton c) = true ↔
      line.toList.getLast? = some c := by
    intro c
    rw [String.endsWith, String.Slice.endsWith_string_iff, String.copy_toSlice,
      String.toList_singleton, List.singleton_suffix_iff_getLast?_eq_some]
  have hreturn : ¬ line.endsWith "\r" = true :=
    fun hend => h (List.mem_of_getLast? ((hsuffix '\r').mp hend))
  rw [isEnded, Bool.or_eq_true, or_iff_left hreturn]
  exact hsuffix '\n'

theorem toList_hunkLine {sign line : String} (hsign : sign.toList = [c]) (hc : c ≠ '\n')
    (h : '\r' ∉ line.toList) : (hunkLine sign line).toList = marked (c :: line.toList) := by
  have hlast : (c :: line.toList).getLast? = some '\n' ↔ isEnded line = true := by
    rw [isEnded_iff h, List.getLast?_cons]
    cases line.toList.getLast? <;> simp [hc]
  rw [hunkLine, marked]
  by_cases hended : isEnded line = true
  · rw [if_pos hended, if_pos (hlast.mpr hended), String.toList_append, String.toList_append, hsign]
    simp
  · rw [if_neg hended, if_neg (hlast.not.mpr hended), String.toList_append, String.toList_append,
      hsign]
    rfl

/-- The lines of both texts are without carriage returns and without line ends in them. -/
def Sides.Readable (s : Sides) : Prop :=
  ∀ line ∈ s.oldLines ++ s.newLines, OneLine line ∧ '\r' ∉ line

theorem toList_signed {sign : String} (hsign : sign.toList = [c]) (hc : c ≠ '\n')
    {texts : Array String} (h : ∀ line ∈ texts.toList.map String.toList, '\r' ∉ line)
    (start count : Nat) : (signed sign texts start count).toList =
      ((slice (texts.toList.map String.toList) start count).map (c :: ·)).flatMap marked := by
  rw [signed, String.toList_join, slice, ← List.map_drop, ← List.map_take, List.flatMap_map,
    List.map_map, List.flatMap_map]
  refine List.flatMap_congr fun line hline => ?_
  exact toList_hunkLine hsign hc
    (h _ (List.mem_map_of_mem (List.mem_of_mem_drop (List.mem_of_mem_take hline))))

theorem toList_editText (hs : s.Readable) (e : Edit) :
    (editText s e).toList = ((hunkLines s e).map HunkLine.text).flatMap marked := by
  have hold : ∀ line ∈ s.old.toList.map String.toList, '\r' ∉ line :=
    fun line hline => (hs line (List.mem_append_left _ hline)).2
  have hnew : ∀ line ∈ s.new.toList.map String.toList, '\r' ∉ line :=
    fun line hline => (hs line (List.mem_append_right _ hline)).2
  have hchange : (signed "-" s.old e.oldStart e.oldCount ++
      signed "+" s.new e.newStart e.newCount).toList =
      (((slice s.oldLines e.oldStart e.oldCount).map HunkLine.removed ++
        (slice s.newLines e.newStart e.newCount).map HunkLine.inserted).map
          HunkLine.text).flatMap marked := by
    rw [String.toList_append, toList_signed (c := '-') rfl (by decide) hold,
      toList_signed (c := '+') rfl (by decide) hnew, List.map_append, List.flatMap_append,
      List.map_map, List.map_map]
    rfl
  rw [editText, hunkLines]
  cases e.kind with
  | keep =>
    dsimp only
    rw [toList_signed (c := ' ') rfl (by decide) hold, List.map_map]
    rfl
  | remove => exact hchange
  | insert => exact hchange
  | replace => exact hchange

theorem toList_hunkText (hs : s.Readable) (es : List Edit) :
    (hunkText s es).toList = (hunkPieces s es).flatMap marked := by
  cases es with
  | nil => rfl
  | cons first es =>
    rw [hunkText.eq_def, hunkPieces.eq_def, List.getLast?_eq_some_getLast (List.cons_ne_nil first es)]
    dsimp only
    generalize (first :: es).getLast _ = last
    have hheader : marked (hunkHeader first last).toList = (hunkHeader first last).toList := by
      refine if_pos ?_
      rw [hunkHeader, String.toList_append, List.getLast?_append]
      rfl
    rw [String.toList_append, String.toList_join, List.flatMap_cons, hheader, List.flatMap_map,
      List.map_flatMap, List.flatMap_assoc]
    congr 1
    exact List.flatMap_congr fun e _ => toList_editText hs e

theorem mem_of_mem_slice {start count : Nat} (h : line ∈ slice lines start count) : line ∈ lines :=
  List.mem_of_mem_drop (List.mem_of_mem_take h)

/-- A line of a hunk is a sign and a line of one of the texts. -/
theorem exists_text_eq {e : Edit} {l : HunkLine} (h : l ∈ hunkLines s e) :
    ∃ sign, ∃ line ∈ s.oldLines ++ s.newLines, l.text = sign :: line ∧ sign ∈ [' ', '-', '+'] := by
  have hchange : l ∈ (slice s.oldLines e.oldStart e.oldCount).map HunkLine.removed ++
      (slice s.newLines e.newStart e.newCount).map HunkLine.inserted →
      ∃ sign, ∃ line ∈ s.oldLines ++ s.newLines, l.text = sign :: line ∧ sign ∈ [' ', '-', '+'] := by
    intro h
    rcases List.mem_append.mp h with h | h <;> obtain ⟨line, hline, rfl⟩ := List.mem_map.mp h
    · exact ⟨'-', line, List.mem_append_left _ (mem_of_mem_slice hline), rfl, by decide⟩
    · exact ⟨'+', line, List.mem_append_right _ (mem_of_mem_slice hline), rfl, by decide⟩
  rw [hunkLines] at h
  cases hkind : e.kind with
  | keep =>
    rw [hkind] at h
    obtain ⟨line, hline, rfl⟩ := List.mem_map.mp h
    exact ⟨' ', line, List.mem_append_left _ (mem_of_mem_slice hline), rfl, by decide⟩
  | remove => exact hchange (by rwa [hkind] at h)
  | insert => exact hchange (by rwa [hkind] at h)
  | replace => exact hchange (by rwa [hkind] at h)

theorem oneLine_of_mem_hunkPieces (hs : s.Readable) (h : line ∈ hunkPieces s es) :
    line ≠ [] ∧ OneLine line ∧ line.head? ≠ some '\\' := by
  cases es with
  | nil => cases h
  | cons first es =>
    rw [hunkPieces.eq_def, List.getLast?_eq_some_getLast (List.cons_ne_nil first es)] at h
    dsimp only at h
    generalize (first :: es).getLast _ = last at h
    rcases List.mem_cons.mp h with rfl | h
    · have hdigits : ∀ start stop, '\n' ∉ (place start stop).toList :=
        fun _ _ => not_mem_place (by decide) (by decide)
      have hend : (hunkHeader first last).toList =
          ("@@ -" ++ place first.oldStart last.oldEnd ++ " +" ++
            place first.newStart last.newEnd ++ " @@").toList ++ ['\n'] := by
        simp only [hunkHeader, String.toList_append, List.append_assoc]
        rfl
      refine ⟨by rw [hend]; exact List.concat_ne_nil _ _, ?_, by rw [toList_hunkHeader]; simp⟩
      rw [OneLine, hend, List.dropLast_concat]
      simp [String.toList_append, hdigits]
    · obtain ⟨l, hl, rfl⟩ := List.mem_map.mp h
      obtain ⟨e, -, hl⟩ := List.mem_flatMap.mp hl
      obtain ⟨sign, line, hline, htext, hsign⟩ := exists_text_eq hl
      have hplain : sign ≠ '\n' ∧ sign ≠ '\\' := by
        simp only [List.mem_cons, List.not_mem_nil, or_false] at hsign
        rcases hsign with rfl | rfl | rfl <;> decide
      rw [htext]
      exact ⟨by simp, (hs line hline).1.cons hplain.1, by simpa using hplain.2⟩

/-- The hunks of the diff of two texts. -/
def Sides.hunks (s : Sides) : List (List Edit) :=
  Diff.hunks (compact s (script s))

theorem toList_join_hunkText (hr : s.Readable) (hs : List (List Edit)) :
    (String.join (hs.map (hunkText s))).toList = (hs.flatMap (hunkPieces s)).flatMap marked := by
  rw [String.toList_join, List.flatMap_map, List.flatMap_assoc]
  exact List.flatMap_congr fun es _ => toList_hunkText hr es

theorem unified_eq {old new : String} (fileName : String)
    (hsome : (Sides.ofTexts old new).hunks ≠ []) : unified fileName old new =
      heading fileName ++
        String.join ((Sides.ofTexts old new).hunks.map (hunkText (.ofTexts old new))) := by
  obtain ⟨es, hs, heq⟩ := List.exists_cons_of_ne_nil hsome
  have hhunks : Diff.hunks (compact (.ofTexts old new) (script (.ofTexts old new))) = es :: hs := heq
  rw [heq, unified, hhunks, heading]

/-- **The hunks of a diff are read back from its text.** -/
theorem readPatch_unified {old new : String} (fileName : String) (hr : (Sides.ofTexts old new).Readable)
    (hsome : (Sides.ofTexts old new).hunks ≠ []) (hne : ∀ es ∈ (Sides.ofTexts old new).hunks, es ≠ []) :
    readPatch fileName (unified fileName old new) =
      some ((Sides.ofTexts old new).hunks.map (hunkOf (.ofTexts old new))) := by
  have hlines : ∀ line ∈ (Sides.ofTexts old new).hunks.flatMap (hunkPieces (.ofTexts old new)),
      line ≠ [] ∧ OneLine line ∧ line.head? ≠ some '\\' := by
    intro line hline
    obtain ⟨es, -, hline⟩ := List.mem_flatMap.mp hline
    exact oneLine_of_mem_hunkPieces hr hline
  rw [readPatch, unified_eq fileName hsome, String.toList_append, dropBeginning?_append,
    toList_join_hunkText hr]
  dsimp only [Option.bind_eq_bind, Option.bind_some]
  rw [obeyRemarks_cutLines hlines, readHunks_flatMap hne]
  rfl

end AttributeRegistry.Diff
