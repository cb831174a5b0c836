import AttributeRegistry.Codegen.Doc
import AttributeRegistry.Proofs.Text.Trimming

/-!
# Paragraphs of a text

The documented form of a text has its lines without the blanks at their ends, no empty line at either
end of the text, and one empty line for every run of them in between (`normalised`). The paragraphs of
a text are the runs of lines of that form (`spaced_runs`), but each of their lines is trimmed at both
ends before it is written, and so is the text before it is cut (`map_trim_paragraphs`).
-/

namespace AttributeRegistry

namespace Text

variable {cs : List Char}

/-! ## The documented form -/

/-- Of each run of empty lines the last, and none if the run is at the end. -/
def squeezed : List (List Char) → List (List Char)
  | [] => []
  | line :: rest =>
    if line = [] ∧ rest.head?.getD [] = [] then squeezed rest else line :: squeezed rest

/-- The lines of a text without the blanks at their ends, without empty lines at the ends of the text,
and with one empty line for every run of them. -/
def normalised (text : List Char) : List (List Char) :=
  squeezed (((splitOn '\n' text).map trimEnd).dropWhile List.isEmpty)

theorem mem_of_mem_squeezed {lines : List (List Char)} {line : List Char} (h : line ∈ squeezed lines) :
    line ∈ lines := by
  induction lines with
  | nil => exact h
  | cons first rest ih =>
    rw [squeezed] at h
    split at h
    · exact List.mem_cons_of_mem _ (ih h)
    · exact (List.mem_cons.mp h).elim (fun h => h ▸ List.mem_cons_self)
        fun h => List.mem_cons_of_mem _ (ih h)

theorem trimEnd_of_mem_normalised {text line : List Char} (h : line ∈ normalised text) :
    trimEnd line = line := by
  obtain ⟨part, -, rfl⟩ :=
    List.mem_map.mp ((List.dropWhile_sublist _).mem (mem_of_mem_squeezed h))
  exact trimEnd_trimEnd part

end Text

namespace Codegen

open Text

/-! ## Runs -/

section Runs

variable {line next : List Char} {rest blanks run : List (List Char)}
  {more : List (List (List Char))}

theorem runs_cons_of_blank (h : allBlank line = true) : runs (line :: rest) = runs rest := by
  cases rest <;> simp [runs, h]

theorem runs_singleton (h : ¬allBlank line = true) : runs [line] = [[line]] :=
  if_neg h

theorem runs_cons_blank (h : ¬allBlank line = true) (hnext : allBlank next = true) :
    runs (line :: next :: rest) = [line] :: runs (next :: rest) := by
  conv_lhs => unfold runs
  rw [if_neg h]
  exact if_pos hnext

theorem runs_cons_line (h : ¬allBlank line = true) (hnext : ¬allBlank next = true)
    (hruns : runs (next :: rest) = run :: more) :
    runs (line :: next :: rest) = (line :: run) :: more := by
  conv_lhs => unfold runs
  rw [if_neg h]
  dsimp only
  rw [if_neg hnext, hruns]

/-- A line that is not blank begins a run. -/
theorem exists_runs_cons (hnext : ¬allBlank next = true) :
    ∃ run more, runs (next :: rest) = (next :: run) :: more := by
  unfold runs
  rw [if_neg hnext]
  repeat' split
  all_goals exact ⟨_, _, rfl⟩

theorem runs_cons_ne_nil (hnext : ¬allBlank next = true) : runs (next :: rest) ≠ [] := by
  obtain ⟨run, more, hruns⟩ := @exists_runs_cons next rest hnext
  simp [hruns]

theorem runs_blanks_append (h : ∀ line ∈ blanks, allBlank line = true) (lines : List (List Char)) :
    runs (blanks ++ lines) = runs lines := by
  induction blanks with
  | nil => rfl
  | cons line blanks ih =>
    rw [List.forall_mem_cons] at h
    rw [List.cons_append, runs_cons_of_blank h.1, ih h.2]

theorem runs_append_blanks (h : ∀ line ∈ blanks, allBlank line = true) (lines : List (List Char)) :
    runs (lines ++ blanks) = runs lines := by
  have hblanks : runs blanks = [] := by
    have happend := runs_blanks_append h []
    rwa [List.append_nil] at happend
  induction lines using runs.induct with
  | case1 => exact hblanks
  | case2 line rest hline ih => rw [List.cons_append, runs_cons_of_blank hline, runs_cons_of_blank hline, ih]
  | case3 line hline =>
    rw [runs_singleton hline]
    cases blanks with
    | nil => exact runs_singleton hline
    | cons blank blanks =>
      rw [List.singleton_append, runs_cons_blank hline (h blank List.mem_cons_self), hblanks]
  | case4 line hline next rest hnext ih =>
    rw [runs_cons_blank hline hnext, List.cons_append, List.cons_append, runs_cons_blank hline hnext,
      ← List.cons_append, ih]
  | case5 line hline next rest hnext hnil => exact absurd hnil (runs_cons_ne_nil hnext)
  | case6 line hline next rest hnext run more hruns ih =>
    rw [List.cons_append] at ih
    rw [runs_cons_line hline hnext hruns, List.cons_append, List.cons_append,
      runs_cons_line hline hnext (ih.trans hruns)]

/-- Runs of lines that are changed, but never from blank to not blank or back. -/
theorem runs_map {f : List Char → List Char} (h : ∀ line, allBlank (f line) = allBlank line)
    (lines : List (List Char)) : runs (lines.map f) = (runs lines).map (List.map f) := by
  have hkept : ∀ line, ¬allBlank line = true → ¬allBlank (f line) = true := fun line hline => by
    rwa [h]
  induction lines using runs.induct with
  | case1 => rfl
  | case2 line rest hline ih =>
    rw [List.map_cons, runs_cons_of_blank ((h line).trans hline), runs_cons_of_blank hline, ih]
  | case3 line hline =>
    rw [runs_singleton hline]
    exact runs_singleton (hkept line hline)
  | case4 line hline next rest hnext ih =>
    rw [List.map_cons] at ih
    rw [runs_cons_blank hline hnext, List.map_cons, List.map_cons,
      runs_cons_blank (hkept line hline) ((h next).trans hnext), ih]
    rfl
  | case5 line hline next rest hnext hnil => exact absurd hnil (runs_cons_ne_nil hnext)
  | case6 line hline next rest hnext run more hruns ih =>
    rw [List.map_cons, hruns] at ih
    rw [runs_cons_line hline hnext hruns, List.map_cons, List.map_cons,
      runs_cons_line (hkept line hline) (hkept next hnext) ih]
    rfl

/-- The runs hold the lines that are not blank. -/
theorem flatten_runs (lines : List (List Char)) :
    (runs lines).flatten = lines.filter fun line => !allBlank line := by
  induction lines using runs.induct with
  | case1 => rfl
  | case2 line rest hline ih => rw [runs_cons_of_blank hline, ih, List.filter_cons_of_neg (by simp [hline])]
  | case3 line hline =>
    rw [runs_singleton hline, List.filter_cons_of_pos (by simp [hline])]
    rfl
  | case4 line hline next rest hnext ih =>
    rw [runs_cons_blank hline hnext, List.flatten_cons, ih]
    exact (List.filter_cons_of_pos (by simp [hline])).symm
  | case5 line hline next rest hnext hnil => exact absurd hnil (runs_cons_ne_nil hnext)
  | case6 line hline next rest hnext run more hruns ih =>
    rw [hruns] at ih
    rw [runs_cons_line hline hnext hruns, List.filter_cons_of_pos (by simp [hline]), ← ih]
    rfl

end Runs

/-! ## Paragraphs -/

/-- Some paragraphs with an empty line before each. -/
def spaced (paragraphs : List (List (List Char))) : List (List Char) :=
  paragraphs.flatMap fun paragraph => [] :: paragraph

theorem spaced_map {f : List Char → List Char} (h : f [] = []) (paragraphs : List (List (List Char))) :
    spaced (paragraphs.map (List.map f)) = (spaced paragraphs).map f := by
  unfold spaced
  rw [List.flatMap_map, List.map_flatMap]
  simp only [List.map_cons, h]

/-- An empty line before each run is one empty line for each run of empty lines. -/
theorem spaced_runs {lines : List (List Char)} (h : ∀ line ∈ lines, allBlank line = true → line = []) :
    spaced (runs lines) = (if lines.head?.getD [] = [] then [] else [[]]) ++ squeezed lines := by
  have hblank : ∀ {line : List Char}, ¬allBlank line = true → line ≠ [] := by
    rintro line hline rfl
    exact hline rfl
  induction lines using runs.induct with
  | case1 => rfl
  | case2 line rest hline ih =>
    rw [List.forall_mem_cons] at h
    rw [runs_cons_of_blank hline, ih h.2, h.1 hline, squeezed]
    by_cases hrest : rest.head?.getD [] = [] <;> simp [hrest]
  | case3 line hline =>
    rw [runs_singleton hline]
    simp [spaced, squeezed, hblank hline]
  | case4 line hline next rest hnext ih =>
    rw [List.forall_mem_cons] at h
    have hnil : next = [] := h.2 next List.mem_cons_self hnext
    have hrest := ih h.2
    rw [hnil] at hrest ⊢
    rw [runs_cons_blank hline rfl, spaced, List.flatMap_cons, ← spaced, hrest, squeezed.eq_2 line]
    simp [hblank hline]
  | case5 line hline next rest hnext hnil => exact absurd hnil (runs_cons_ne_nil hnext)
  | case6 line hline next rest hnext run more hruns ih =>
    rw [List.forall_mem_cons] at h
    have hrest := ih h.2
    rw [hruns, spaced, List.flatMap_cons, ← spaced] at hrest
    rw [runs_cons_line hline hnext hruns, spaced, List.flatMap_cons, ← spaced, squeezed]
    simp [hblank hline, hblank hnext] at hrest ⊢
    exact hrest

theorem eq_nil_of_mem_map_trimEnd {lines : List (List Char)} {line : List Char}
    (h : line ∈ lines.map trimEnd) (hblank : allBlank line = true) : line = [] := by
  obtain ⟨part, -, rfl⟩ := List.mem_map.mp h
  rw [← trimEnd_trimEnd]
  exact allBlank_iff_trimEnd_eq_nil.mp hblank

/-- **The paragraphs of the lines of a text, with an empty line before each, are its documented form
behind an empty line.** -/
theorem spaced_runs_map_trimEnd (text : List Char) :
    spaced (runs ((splitOn '\n' text).map trimEnd)) =
      if normalised text = [] then [] else [] :: normalised text := by
  have hfront : ∀ line ∈ ((splitOn '\n' text).map trimEnd).takeWhile List.isEmpty,
      allBlank line = true := by
    intro line hline
    have hempty := List.mem_takeWhile_imp hline
    rw [List.isEmpty_iff.mp hempty]
    rfl
  have hrest : ∀ line ∈ ((splitOn '\n' text).map trimEnd).dropWhile List.isEmpty,
      allBlank line = true → line = [] :=
    fun line hline => eq_nil_of_mem_map_trimEnd ((List.dropWhile_sublist _).mem hline)
  rw [← List.takeWhile_append_dropWhile (p := List.isEmpty) (l := (splitOn '\n' text).map trimEnd),
    runs_blanks_append hfront, spaced_runs hrest, normalised]
  cases hlines : ((splitOn '\n' text).map trimEnd).dropWhile List.isEmpty with
  | nil => rfl
  | cons line rest =>
    have hline : line ≠ [] := by
      have hhead := List.head?_dropWhile_not List.isEmpty ((splitOn '\n' text).map trimEnd)
      rw [hlines] at hhead
      simpa using hhead
    simp [squeezed, hline]

/-- Trimmed lines are the same runs whether the text is trimmed or not before it is cut. -/
theorem runs_map_trim_splitOn (text : List Char) :
    runs ((splitOn '\n' (trim text)).map trim) = runs ((splitOn '\n' text).map trim) := by
  obtain ⟨ws, us, hws, hus, htext⟩ := exists_eq_append_trim text
  have hblanks : ∀ {ws : List Char} {parts : List (List Char)}, allBlank ws = true →
      parts ⊆ splitOn '\n' ws → ∀ line ∈ parts.map trim, allBlank line = true := by
    intro ws parts hws hparts
    rw [List.forall_mem_map]
    intro part hpart
    rw [allBlank_trim]
    exact allBlank_of_mem_splitOn hws (hparts hpart)
  have hright : runs ((splitOn '\n' (trim text ++ us)).map trim) =
      runs ((splitOn '\n' (trim text)).map trim) := by
    obtain ⟨front, last, first, back, hcut, hcutBlank, happend⟩ :=
      exists_splitOn_append '\n' (trim text) us
    have hfirst : allBlank first = true :=
      allBlank_of_mem_splitOn hus (hcutBlank ▸ List.mem_cons_self)
    have hback := hblanks hus (hcutBlank ▸ List.subset_cons_self first back)
    rw [happend, hcut, List.map_append, List.map_append, List.map_cons, List.map_singleton,
      trim_append_of_allBlank hfirst, ← List.singleton_append, ← List.append_assoc,
      runs_append_blanks hback]
  obtain ⟨front, last, first, back, hcutBlank, hcut, happend⟩ :=
    exists_splitOn_append '\n' ws (trim text ++ us)
  have hlast : allBlank last = true :=
    allBlank_of_mem_splitOn hws (by rw [hcutBlank]; simp)
  have hfront := hblanks hws (hcutBlank ▸ List.subset_append_left front [last])
  conv_rhs => rw [htext, happend, List.map_append, List.map_cons, trim_append_left_of_allBlank hlast,
    runs_blanks_append hfront, ← List.map_cons, ← hcut, hright]

/-- **Trimmed line by line, the paragraphs of a text are the runs of its lines.** -/
theorem map_trim_paragraphs (text : List Char) :
    (paragraphs text).map (List.map trim) =
      (runs ((splitOn '\n' text).map trimEnd)).map (List.map trim) := by
  have htrim : ∀ lines : List (List Char), (runs (lines.map trimEnd)).map (List.map trim) =
      runs (lines.map trim) := by
    intro lines
    rw [← runs_map allBlank_trim, List.map_map]
    congr 2
    exact funext trim_trimEnd
  obtain ⟨last, hlast, hlines⟩ := exists_map_trim_splitOn (trim text)
  rw [paragraphs, htrim, htrim, ← runs_append_blanks hlast, ← hlines, runs_map_trim_splitOn]

/-- The lines of a paragraph are lines of the text that are not blank. -/
theorem of_mem_paragraphs {text line : List Char} {paragraph : List (List Char)}
    (hparagraph : paragraph ∈ paragraphs text) (hline : line ∈ paragraph) :
    allBlank line = false ∧ '\n' ∉ line := by
  have hmem : line ∈ (paragraphs text).flatten := List.mem_flatten_of_mem hparagraph hline
  rw [paragraphs, flatten_runs, List.mem_filter] at hmem
  obtain ⟨hmem, hblank⟩ := hmem
  obtain ⟨l, hl, rfl⟩ := List.mem_map.mp hmem
  exact ⟨by simpa using hblank, fun h => newline_not_mem_of_mem_lines hl (trimEnd_subset h)⟩

end Codegen

end AttributeRegistry
