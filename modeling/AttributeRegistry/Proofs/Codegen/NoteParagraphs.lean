import AttributeRegistry.Proofs.Codegen.Paragraphs

/-!
# Paragraphs of notes

A blank line ends a run (`runs_append_cons_blank`), and without one the next line goes on with it
(`together_runs`). So of two lines that are not blank, with none but blank lines between them, the second
is in the paragraph of the first iff nothing is between them (`together_runs_iff`). What lines are
together determines a division of lines (`eq_of_together`), so there is only one of this kind
(`Divides.unique`).

Paragraphs are cut again as they were from the text that has their lines, an empty line between two
paragraphs (`paragraphs_joinParagraphs`). For that it matters that the first line is not indented, because
the text is trimmed before it is cut (`paragraphs_eq_nil_or_cons`).

Main statement: `noteParagraphs_divide`.
-/

namespace AttributeRegistry

namespace Text

variable {cs ds : List Char} {sep part : List Char} {parts : List (List Char)}

/-! ## Ends of texts -/

theorem trimEnd_append (hne : ds ≠ []) (h : trimEnd ds = ds) : trimEnd (cs ++ ds) = cs ++ ds := by
  have hlast := List.rdropWhile_eq_self_iff.mp h hne
  refine List.rdropWhile_eq_self_iff.mpr fun _ => ?_
  rwa [List.getLast_append_of_ne_nil _ hne]

/-- A text that begins with a character that is no blank begins with it when its end is trimmed. -/
theorem exists_trimEnd_cons {c : Char} (h : isBlank c = false) (cs : List Char) :
    ∃ ds, trimEnd (c :: cs) = c :: ds := by
  obtain ⟨ws, hws, hcs⟩ := exists_eq_trimEnd_append (c :: cs)
  cases htrim : trimEnd (c :: cs) with
  | nil =>
    rw [htrim, List.nil_append] at hcs
    rw [← hcs, allBlank, List.all_cons, h] at hws
    cases hws
  | cons d ds =>
    rw [htrim, List.cons_append, List.cons.injEq] at hcs
    exact ⟨ds, by rw [hcs.1]⟩

theorem isBlank_eq_false_of_trim_eq_cons {c : Char} (h : trim cs = c :: ds) : isBlank c = false := by
  obtain ⟨more, hmore⟩ : trim cs <+: trimStart cs := List.rdropWhile_prefix ..
  rw [h, List.cons_append] at hmore
  exact not_isBlank_of_trimStart_eq_cons hmore.symm

theorem joinWith_ne_nil (hne : part ≠ []) : joinWith sep (part :: parts) ≠ [] := by
  rw [joinWith_cons]
  simp [hne]

theorem head?_joinWith (hne : part ≠ []) : (joinWith sep (part :: parts)).head? = part.head? := by
  rw [joinWith_cons]
  exact List.head?_append_of_ne_nil _ hne

/-- Trimmed parts make a trimmed end. -/
theorem trimEnd_joinWith (h : ∀ part ∈ parts, part ≠ [] ∧ trimEnd part = part) :
    trimEnd (joinWith sep parts) = joinWith sep parts := by
  induction parts with
  | nil => rfl
  | cons part parts ih =>
    rw [List.forall_mem_cons] at h
    cases parts with
    | nil => exact h.1.2
    | cons next parts => exact trimEnd_append (joinWith_ne_nil (h.2 next List.mem_cons_self).1) (ih h.2)

end Text

namespace Codegen

open Text

/-! ## Runs -/

section Runs

variable {line blank first second : List Char} {before gap behind rest run : List (List Char)}
  {p : List (List Char)} {ps qs : List (List (List Char))}

/-- A line that is not blank is a run of its own, or goes on with the first run behind it. -/
theorem runs_cons_eq_or (h : ¬allBlank line = true) (rest : List (List Char)) :
    runs (line :: rest) = [line] :: runs rest ∨
      ∃ run more, runs rest = run :: more ∧ runs (line :: rest) = (line :: run) :: more := by
  cases rest with
  | nil => exact .inl (runs_singleton h)
  | cons next rest =>
    by_cases hnext : allBlank next = true
    · exact .inl (runs_cons_blank h hnext)
    · obtain ⟨run, more, hruns⟩ := @exists_runs_cons next rest hnext
      exact .inr ⟨_, _, hruns, runs_cons_line h hnext hruns⟩

/-- Of two lines that are not blank, the second goes on with the run of the first. -/
theorem runs_cons_cons (h : ¬allBlank line = true) (hsecond : ¬allBlank second = true)
    (rest : List (List Char)) :
    ∃ run more, runs (second :: rest) = (second :: run) :: more ∧
      runs (line :: second :: rest) = (line :: second :: run) :: more := by
  obtain ⟨run, more, hruns⟩ := @exists_runs_cons second rest hsecond
  exact ⟨run, more, hruns, runs_cons_line h hsecond hruns⟩

theorem ne_nil_of_mem_runs {lines : List (List Char)} (h : run ∈ runs lines) : run ≠ [] := by
  induction lines generalizing run with
  | nil => cases h
  | cons line rest ih =>
    by_cases hline : allBlank line = true
    · exact ih (runs_cons_of_blank hline ▸ h)
    · rcases runs_cons_eq_or hline rest with hruns | ⟨first, more, hrest, hruns⟩
      · rw [hruns] at h
        rcases List.mem_cons.mp h with rfl | h
        · simp
        · exact ih h
      · rw [hruns] at h
        rcases List.mem_cons.mp h with rfl | h
        · simp
        · exact ih (hrest ▸ List.mem_cons_of_mem _ h)

/-- **A blank line ends a run.** -/
theorem runs_append_cons_blank (h : allBlank blank = true) (before rest : List (List Char)) :
    runs (before ++ blank :: rest) = runs before ++ runs rest := by
  induction before using runs.induct with
  | case1 => exact runs_cons_of_blank h
  | case2 line before hline ih =>
    rw [List.cons_append, runs_cons_of_blank hline, runs_cons_of_blank hline, ih]
  | case3 line hline =>
    rw [List.singleton_append, runs_cons_blank hline h, runs_cons_of_blank h, runs_singleton hline]
    rfl
  | case4 line hline next before hnext ih =>
    rw [List.cons_append, List.cons_append, runs_cons_blank hline hnext, runs_cons_blank hline hnext,
      ← List.cons_append, ih]
    rfl
  | case5 line hline next before hnext hnil => exact absurd hnil (runs_cons_ne_nil hnext)
  | case6 line hline next before hnext run more hruns ih =>
    rw [hruns, List.cons_append] at ih
    rw [List.cons_append, List.cons_append, runs_cons_line hline hnext ih,
      runs_cons_line hline hnext hruns]
    rfl

/-- Lines that are not blank are one run. -/
theorem runs_eq_singleton (hne : run ≠ []) (h : ∀ line ∈ run, ¬allBlank line = true) :
    runs run = [run] := by
  induction run with
  | nil => exact absurd rfl hne
  | cons line rest ih =>
    rw [List.forall_mem_cons] at h
    cases rest with
    | nil => exact runs_singleton h.1
    | cons next rest =>
      exact runs_cons_line h.1 (h.2 next List.mem_cons_self) (ih (by simp) h.2)

/-- Runs with a blank line before each are the runs. -/
theorem runs_spaced (h : ∀ p ∈ ps, p ≠ [] ∧ ∀ line ∈ p, ¬allBlank line = true) :
    runs (spaced ps) = ps := by
  induction ps with
  | nil => rfl
  | cons p ps ih =>
    rw [List.forall_mem_cons] at h
    have hp : runs p = [p] := runs_eq_singleton h.1.1 h.1.2
    have hspaced : spaced (p :: ps) = [] :: (p ++ spaced ps) := List.flatMap_cons
    have hempty : allBlank [] = true := rfl
    rw [hspaced, runs_cons_of_blank hempty]
    cases ps with
    | nil => simpa [spaced] using hp
    | cons next ps =>
      have hnext : spaced (next :: ps) = [] :: (next ++ spaced ps) := List.flatMap_cons
      rw [hnext, runs_append_cons_blank hempty, hp, ← runs_cons_of_blank hempty, ← hnext, ih h.2]
      rfl

/-! ## Lines in one paragraph -/

/-- The lines that are not blank. -/
def solidLines (lines : List (List Char)) : List (List Char) :=
  lines.filter fun line => !allBlank line

theorem solidLines_cons_of_blank (h : allBlank line = true) (lines : List (List Char)) :
    solidLines (line :: lines) = solidLines lines :=
  List.filter_cons_of_neg (by simp [h])

theorem solidLines_cons (h : ¬allBlank line = true) (lines : List (List Char)) :
    solidLines (line :: lines) = line :: solidLines lines :=
  List.filter_cons_of_pos (by simp [h])

/-- In one of some paragraphs `second` stands right behind `first`, and the lines in front of `first` are
`before`. -/
def Together (ps : List (List (List Char))) (before : List (List Char)) (first second : List Char) :
    Prop :=
  ∃ above head tail below, ps = above ++ (head ++ first :: second :: tail) :: below ∧
    above.flatten ++ head = before

/-- Lines that are not blank are together if nothing is between them. -/
theorem together_runs (hfirst : ¬allBlank first = true) (hsecond : ¬allBlank second = true)
    (before behind : List (List Char)) :
    Together (runs (before ++ first :: second :: behind)) (solidLines before) first second := by
  induction before with
  | nil =>
    obtain ⟨run, more, -, hruns⟩ := runs_cons_cons hfirst hsecond behind
    exact ⟨[], [], run, more, hruns, rfl⟩
  | cons line before ih =>
    obtain ⟨above, head, tail, below, hps, hbefore⟩ := ih
    rw [List.cons_append]
    by_cases hline : allBlank line = true
    · rw [runs_cons_of_blank hline, solidLines_cons_of_blank hline]
      exact ⟨above, head, tail, below, hps, hbefore⟩
    · rw [solidLines_cons hline, ← hbefore]
      rcases runs_cons_eq_or hline (before ++ first :: second :: behind) with
        hruns | ⟨run, more, hrest, hruns⟩
      · rw [hps] at hruns
        exact ⟨[line] :: above, head, tail, below, hruns, rfl⟩
      · -- the line goes on with the first run, which is the one of both lines or one above it
        rw [hps] at hrest
        cases above with
        | nil =>
          obtain ⟨rfl, rfl⟩ := List.cons.inj hrest
          exact ⟨[], line :: head, tail, below, hruns, rfl⟩
        | cons top above =>
          obtain ⟨rfl, rfl⟩ := List.cons.inj hrest
          exact ⟨(line :: top) :: above, head, tail, below, hruns, rfl⟩

/-- Lines are not together if a paragraph ends with the first of them. -/
theorem not_together_append {above below : List (List (List Char))}
    (h : above.flatten = before ++ [first]) : ¬ Together (above ++ below) before first second := by
  rintro ⟨above', head, tail, below', hps, hbefore⟩
  have habove := congrArg List.length h
  have hhead := congrArg List.length hbefore
  simp only [List.length_append, List.length_singleton] at habove hhead
  -- the paragraph of both lines would be above the break and below it
  rcases List.append_eq_append_iff.mp hps with ⟨more, habove', -⟩ | ⟨more, habove', hmore⟩
  · have hlength := congrArg (fun ps => (List.flatten ps).length) habove'
    simp only [List.flatten_append, List.length_append] at hlength
    omega
  · have hlength := congrArg (fun ps => (List.flatten ps).length) habove'
    simp only [List.flatten_append, List.length_append] at hlength
    cases more with
    | nil =>
      simp only [List.flatten_nil, List.length_nil] at hlength
      omega
    | cons paragraph more =>
      rw [List.cons_append, List.cons.injEq] at hmore
      rw [← hmore.1] at hlength
      simp only [List.flatten_cons, List.length_append, List.length_cons] at hlength
      omega

/-- **Lines that are not blank are in one run iff no blank line is between them.** -/
theorem together_runs_iff (hfirst : ¬allBlank first = true) (hsecond : ¬allBlank second = true)
    (hgap : ∀ line ∈ gap, allBlank line = true) (before behind : List (List Char)) :
    Together (runs (before ++ first :: (gap ++ second :: behind))) (solidLines before) first second ↔
      gap = [] := by
  constructor
  · intro htogether
    cases gap with
    | nil => rfl
    | cons blank gap =>
      have hflatten : (runs (before ++ [first])).flatten = solidLines before ++ [first] := by
        rw [flatten_runs, List.filter_append]
        exact congrArg _ (solidLines_cons hfirst [])
      rw [List.append_cons, List.cons_append,
        runs_append_cons_blank (hgap blank List.mem_cons_self)] at htogether
      exact absurd htogether (not_together_append hflatten)
  · rintro rfl
    exact together_runs hfirst hsecond before behind

theorem Together.cons (h : Together ps before first second) :
    Together (p :: ps) (p ++ before) first second := by
  obtain ⟨above, head, tail, below, rfl, rfl⟩ := h
  exact ⟨p :: above, head, tail, below, rfl, List.append_assoc ..⟩

theorem Together.of_cons (h : Together (p :: ps) (p ++ before) first second) :
    Together ps before first second := by
  obtain ⟨above, head, tail, below, hps, hbefore⟩ := h
  cases above with
  | nil =>
    -- the lines of the first paragraph are not in front of all of it
    obtain ⟨rfl, -⟩ := List.cons.inj hps
    have hlength := congrArg List.length hbefore
    simp only [List.flatten_nil, List.nil_append, List.length_append, List.length_cons] at hlength
    omega
  | cons top above =>
    obtain ⟨rfl, rfl⟩ := List.cons.inj hps
    rw [List.flatten_cons, List.append_assoc, List.append_cancel_left_eq] at hbefore
    exact ⟨above, head, tail, below, rfl, hbefore⟩

/-- A paragraph does not go on in another division that has the same lines together. -/
theorem eq_nil_of_together (hp : p ≠ []) (h : ∀ before first second,
    Together ((p ++ rest) :: qs) before first second → Together (p :: ps) before first second) :
    rest = [] := by
  by_contra hrest
  obtain ⟨front, last, hfront⟩ := (List.eq_nil_or_concat' p).resolve_left hp
  obtain ⟨next, rest, rfl⟩ := List.exists_cons_of_ne_nil hrest
  subst hfront
  have htogether : Together ((front ++ [last] ++ next :: rest) :: qs) front last next :=
    ⟨[], front, rest, qs, by simp, rfl⟩
  have hflatten : [front ++ [last]].flatten = front ++ [last] := by simp
  exact not_together_append hflatten (h _ _ _ htogether)

/-- **Divisions of the same lines that have the same lines together are the same.** -/
theorem eq_of_together (hps : ∀ p ∈ ps, p ≠ []) (hqs : ∀ q ∈ qs, q ≠ [])
    (hflatten : ps.flatten = qs.flatten)
    (h : ∀ before first second, Together ps before first second ↔ Together qs before first second) :
    ps = qs := by
  induction ps generalizing qs with
  | nil =>
    refine (List.eq_nil_iff_forall_not_mem.mpr fun q hq => hqs q hq ?_).symm
    exact List.flatten_eq_nil_iff.mp hflatten.symm q hq
  | cons p ps ih =>
    rw [List.forall_mem_cons] at hps
    cases qs with
    | nil => exact absurd (List.flatten_eq_nil_iff.mp hflatten p List.mem_cons_self) hps.1
    | cons q qs =>
      rw [List.forall_mem_cons] at hqs
      rw [List.flatten_cons, List.flatten_cons] at hflatten
      have hpq : p = q := by
        rcases List.append_eq_append_iff.mp hflatten with ⟨rest, rfl, -⟩ | ⟨rest, rfl, -⟩
        · rw [eq_nil_of_together hps.1 fun before first second => (h before first second).mpr,
            List.append_nil]
        · rw [eq_nil_of_together hqs.1 fun before first second => (h before first second).mp,
            List.append_nil]
      subst hpq
      rw [List.append_cancel_left_eq] at hflatten
      have htail : ∀ before first second,
          Together ps before first second ↔ Together qs before first second :=
        fun before first second => ⟨fun ht => ((h _ _ _).mp ht.cons).of_cons,
          fun ht => ((h _ _ _).mpr ht.cons).of_cons⟩
      rw [ih hps.2 hqs.2 hflatten htail]

/-- Neighbours among the lines that are not blank have only blank ones between them. -/
theorem exists_of_solidLines_eq {lines : List (List Char)}
    (h : solidLines lines = before ++ first :: second :: behind) :
    ∃ front gap back, lines = front ++ first :: (gap ++ second :: back) ∧ solidLines front = before ∧
      allBlank first = false ∧ allBlank second = false ∧ ∀ line ∈ gap, allBlank line = true := by
  obtain ⟨front, rest, rfl, hfront, hrest⟩ := List.filter_eq_append_iff.mp h
  obtain ⟨skipped, rest, rfl, hskipped, hfirst, hrest⟩ := List.filter_eq_cons_iff.mp hrest
  obtain ⟨gap, back, rfl, hgap, hsecond, -⟩ := List.filter_eq_cons_iff.mp hrest
  refine ⟨front ++ skipped, gap, back, by simp, ?_, by simpa using hfirst, by simpa using hsecond,
    fun line hline => by simpa using hgap line hline⟩
  rw [solidLines, List.filter_append, hfront, List.filter_eq_nil_iff.mpr hskipped, List.append_nil]

end Runs

/-! ## Paragraphs -/

variable {text : List Char} {ps : List (List (List Char))}

/-- The lines of a text as they are divided into paragraphs. -/
def trimmedLines (text : List Char) : List (List Char) :=
  (lines (trim text)).map trimEnd

/-- It makes no difference to paragraphs whether a text is cut into lines or at its line feeds. -/
theorem paragraphs_eq_runs_splitOn (text : List Char) :
    paragraphs text = runs ((splitOn '\n' (trim text)).map trimEnd) := by
  obtain ⟨last, hlast, hsplit⟩ := exists_map_splitOn trimEnd_dropReturn (trim text)
  have hblank : ∀ line ∈ last, allBlank line = true := fun line hline => by
    rw [hlast line hline]
    rfl
  rw [hsplit, runs_append_blanks hblank, paragraphs]

/-- The first paragraph of a text is not indented. -/
theorem paragraphs_eq_nil_or_cons (text : List Char) : paragraphs text = [] ∨
    ∃ c line run more, paragraphs text = ((c :: line) :: run) :: more ∧ isBlank c = false := by
  rw [paragraphs_eq_runs_splitOn]
  cases htrim : trim text with
  | nil => exact .inl rfl
  | cons c cs =>
    have hc := isBlank_eq_false_of_trim_eq_cons htrim
    have hfeed : '\n' ∉ [c] := by
      rintro hmem
      rw [← List.mem_singleton.mp hmem] at hc
      cases hc
    obtain ⟨part, hsplit⟩ : ∃ part, splitOn '\n' (c :: cs) = (c :: part) :: (splitOn '\n' cs).tail :=
      splitOn_append_of_not_mem hfeed cs
    obtain ⟨line, hline⟩ := exists_trimEnd_cons hc part
    have hsolid : ¬allBlank (c :: line) = true := by simp [allBlank, hc]
    rw [hsplit, List.map_cons, hline]
    obtain ⟨run, more, hruns⟩ := exists_runs_cons hsolid
    exact .inr ⟨c, line, run, more, hruns, hc⟩

/-- Paragraphs as they are cut: of lines that are not blank, trimmed at their ends and without line
feeds. -/
structure Neat (ps : List (List (List Char))) : Prop where
  ne_nil : ∀ p ∈ ps, p ≠ []
  solid : ∀ p ∈ ps, ∀ line ∈ p, allBlank line = false
  trimmed : ∀ p ∈ ps, ∀ line ∈ p, trimEnd line = line
  oneLine : ∀ p ∈ ps, ∀ line ∈ p, '\n' ∉ line

theorem neat_paragraphs (text : List Char) : Neat (paragraphs text) where
  ne_nil _ hp := ne_nil_of_mem_runs hp
  solid _ hp _ hline := (of_mem_paragraphs hp hline).1
  trimmed p hp line hline := by
    have hmem : line ∈ (paragraphs text).flatten := List.mem_flatten_of_mem hp hline
    rw [paragraphs, flatten_runs, List.mem_filter] at hmem
    obtain ⟨l, -, rfl⟩ := List.mem_map.mp hmem.1
    exact trimEnd_trimEnd l
  oneLine _ hp _ hline := (of_mem_paragraphs hp hline).2

/-! ## Paragraphs put together -/

/-- Paragraphs as a text: a line feed between two lines, and an empty line between two paragraphs. -/
def joinParagraphs (ps : List (List (List Char))) : List Char :=
  joinWith ['\n', '\n'] (ps.map (joinWith ['\n']))

namespace Neat

theorem line_ne_nil (h : Neat ps) {p : List (List Char)} {line : List Char} (hp : p ∈ ps)
    (hline : line ∈ p) : line ≠ [] := by
  rintro rfl
  cases h.solid p hp [] hline

theorem of_cons {p : List (List Char)} (h : Neat (p :: ps)) : Neat ps where
  ne_nil q hq := h.ne_nil q (List.mem_cons_of_mem p hq)
  solid q hq := h.solid q (List.mem_cons_of_mem p hq)
  trimmed q hq := h.trimmed q (List.mem_cons_of_mem p hq)
  oneLine q hq := h.oneLine q (List.mem_cons_of_mem p hq)

/-- Cut at its line feeds, the text has the lines of the paragraphs and the empty lines. -/
theorem cons_splitOn_joinParagraphs (h : Neat ps) (hne : ps ≠ []) :
    [] :: splitOn '\n' (joinParagraphs ps) = spaced ps := by
  induction ps with
  | nil => exact absurd rfl hne
  | cons p ps ih =>
    have hsplit := splitOn_joinWith (h.ne_nil p List.mem_cons_self) (h.oneLine p List.mem_cons_self)
    have hspaced : spaced (p :: ps) = [] :: (p ++ spaced ps) := List.flatMap_cons
    cases ps with
    | nil =>
      rw [hspaced, joinParagraphs, List.map_singleton, joinWith, hsplit]
      simp [spaced]
    | cons next ps =>
      have hjoin : joinParagraphs (p :: next :: ps) =
          joinWith ['\n'] p ++ '\n' :: '\n' :: joinParagraphs (next :: ps) := by
        simp [joinParagraphs, joinWith]
      rw [hspaced, hjoin, splitOn_append_cons, splitOn_cons_self, hsplit, ih h.of_cons (by simp)]

theorem trimEnd_of_mem_spaced (h : Neat ps) {line : List Char} (hline : line ∈ spaced ps) :
    trimEnd line = line := by
  obtain ⟨p, hp, hline⟩ := List.mem_flatMap.mp hline
  rcases List.mem_cons.mp hline with rfl | hline
  · rfl
  · exact h.trimmed p hp line hline

theorem trimEnd_joinParagraphs (h : Neat ps) : trimEnd (joinParagraphs ps) = joinParagraphs ps := by
  refine trimEnd_joinWith ?_
  rw [List.forall_mem_map]
  intro p hp
  obtain ⟨first, rest, rfl⟩ := List.exists_cons_of_ne_nil (h.ne_nil p hp)
  exact ⟨joinWith_ne_nil (h.line_ne_nil hp List.mem_cons_self),
    trimEnd_joinWith fun line hline => ⟨h.line_ne_nil hp hline, h.trimmed _ hp line hline⟩⟩

/-- **Paragraphs, the first not indented, are cut again as they were.** -/
theorem paragraphs_joinParagraphs (h : Neat ps) {c : Char} {line : List Char}
    {run : List (List Char)} {more : List (List (List Char))} (hps : ps = ((c :: line) :: run) :: more)
    (hc : isBlank c = false) : paragraphs (joinParagraphs ps) = ps := by
  have hhead : (joinParagraphs ps).head? = some c := by
    rw [hps, joinParagraphs, List.map_cons, head?_joinWith (joinWith_ne_nil (by simp)),
      head?_joinWith (by simp)]
    rfl
  have htrim : trim (joinParagraphs ps) = joinParagraphs ps := by
    refine (trim_eq_self_iff h.trimEnd_joinParagraphs).mpr ?_
    simpa [hhead] using hc
  have hsplit : [] :: splitOn '\n' (joinParagraphs ps) = spaced ps :=
    h.cons_splitOn_joinParagraphs (by simp [hps])
  have htrimmed : (splitOn '\n' (joinParagraphs ps)).map trimEnd =
      splitOn '\n' (joinParagraphs ps) := by
    rw [List.map_congr_left fun part hpart =>
      h.trimEnd_of_mem_spaced (hsplit ▸ List.mem_cons_of_mem [] hpart), List.map_id']
  have hempty : allBlank [] = true := rfl
  rw [paragraphs_eq_runs_splitOn, htrim, htrimmed, ← runs_cons_of_blank hempty, hsplit]
  exact runs_spaced fun p hp => ⟨h.ne_nil p hp, fun line hline => by simp [h.solid p hp line hline]⟩

end Neat

/-- **The paragraphs of a text, put together, have the same paragraphs again.** -/
theorem paragraphs_joinParagraphs (text : List Char) :
    paragraphs (joinParagraphs (paragraphs text)) = paragraphs text := by
  rcases paragraphs_eq_nil_or_cons text with hnil | ⟨c, line, run, more, hcons, hc⟩
  · rw [hnil, paragraphs_eq_runs_splitOn]
    rfl
  · exact (neat_paragraphs text).paragraphs_joinParagraphs hcons hc

/-! ## Notes -/

/-- How a text is divided into paragraphs. -/
structure Divides (ps : List (List (List Char))) (text : List Char) : Prop where
  ne_nil : ∀ p ∈ ps, p ≠ []
  trimmed : ∀ p ∈ ps, ∀ line ∈ p, allBlank line = false ∧ trimEnd line = line
  flatten_eq : ps.flatten = solidLines (trimmedLines text)
  together_iff : ∀ before first gap second behind,
    trimmedLines text = before ++ first :: (gap ++ second :: behind) → allBlank first = false →
      allBlank second = false → (∀ line ∈ gap, allBlank line = true) →
        (Together ps (solidLines before) first second ↔ gap = [])

theorem divides_paragraphs (text : List Char) : Divides (paragraphs text) text where
  ne_nil := (neat_paragraphs text).ne_nil
  trimmed p hp line hline :=
    ⟨(neat_paragraphs text).solid p hp line hline, (neat_paragraphs text).trimmed p hp line hline⟩
  flatten_eq := flatten_runs _
  together_iff before first gap second behind hlines hfirst hsecond hgap := by
    have hparagraphs : paragraphs text = runs (before ++ first :: (gap ++ second :: behind)) := by
      rw [← hlines]
      rfl
    rw [hparagraphs]
    exact together_runs_iff (by simp [hfirst]) (by simp [hsecond]) hgap before behind

/-- Lines that are together in one division of a text are so in every other. -/
theorem Divides.together {qs : List (List (List Char))} {before : List (List Char)}
    {first second : List Char} (hps : Divides ps text) (hqs : Divides qs text)
    (h : Together ps before first second) : Together qs before first second := by
  obtain ⟨behind, hflatten⟩ : ∃ behind, ps.flatten = before ++ first :: second :: behind := by
    obtain ⟨above, head, tail, below, rfl, rfl⟩ := h
    exact ⟨tail ++ below.flatten, by simp⟩
  rw [hps.flatten_eq] at hflatten
  obtain ⟨front, gap, back, hlines, rfl, hfirst, hsecond, hgap⟩ := exists_of_solidLines_eq hflatten
  rw [hps.together_iff front first gap second back hlines hfirst hsecond hgap] at h
  exact (hqs.together_iff front first gap second back hlines hfirst hsecond hgap).mpr h

/-- **A text is divided in one way.** -/
theorem Divides.unique {qs : List (List (List Char))} (hps : Divides ps text) (hqs : Divides qs text) :
    ps = qs :=
  eq_of_together hps.ne_nil hqs.ne_nil (hps.flatten_eq.trans hqs.flatten_eq.symm)
    fun _ _ _ => ⟨hps.together hqs, hqs.together hps⟩

/-- **Notes are divided into their paragraphs.** Those are not empty and hold the lines of the notes that
are not blank, without the blanks at their ends and in order; of two such lines with only blank ones
between them, the second is in the paragraph of the first iff nothing is between them. There is no other
way to divide them so, and notes of these paragraphs, with an empty line between two of them, have the
same paragraphs. -/
theorem noteParagraphs_divide {d : Doc} {notes : String} (h : d.definition.notes = some notes) :
    Divides d.noteParagraphs notes.toList ∧
      (∀ ps, Divides ps notes.toList → ps = d.noteParagraphs) ∧
      ∀ e : Doc, e.definition.notes = some (String.ofList (joinParagraphs d.noteParagraphs)) →
        e.noteParagraphs = d.noteParagraphs := by
  have hparagraphs : ∀ {e : Doc} {text : String}, e.definition.notes = some text →
      e.noteParagraphs = paragraphs text.toList := by
    intro e text htext
    rw [Doc.noteParagraphs, htext]
  rw [hparagraphs h]
  refine ⟨divides_paragraphs _, fun ps hps => hps.unique (divides_paragraphs _), fun e he => ?_⟩
  rw [hparagraphs he, String.toList_ofList, paragraphs_joinParagraphs]

/-- Notes with blank lines at both ends and in between, some with carriage returns. -/
private def spread : String :=
  "\nFirst line  \r\nsecond line\n\n  \r\n\nNext paragraph\t\n"

/-- An attribute with those notes. -/
private def spreadDoc : Doc :=
  .ofAttribute { Attribute.new "host.id" (.primitive (.scalar .string)) "The host." [.text "a1"] with
    notes := some spread }

/-- The first two of those lines are in one paragraph, the last is in another. -/
theorem noteParagraphs_divide_spread :
    spreadDoc.definition.notes = some spread ∧ Divides spreadDoc.noteParagraphs spread.toList ∧
      (∀ ps, Divides ps spread.toList → ps = spreadDoc.noteParagraphs) ∧
      Together spreadDoc.noteParagraphs [] "First line".toList "second line".toList ∧
      ¬ Together spreadDoc.noteParagraphs ["First line".toList] "second line".toList
        "Next paragraph".toList ∧
      ∀ e : Doc, e.definition.notes = some (String.ofList (joinParagraphs spreadDoc.noteParagraphs)) →
        e.noteParagraphs = spreadDoc.noteParagraphs := by
  have hnotes : spreadDoc.definition.notes = some spread := rfl
  obtain ⟨hdivides, hunique, hjoin⟩ := noteParagraphs_divide hnotes
  have hlines : trimmedLines spread.toList = ["First line".toList, "second line".toList, [], [], [],
      "Next paragraph".toList] := by
    decide +kernel
  have hnone : ∀ line ∈ ([] : List (List Char)), allBlank line = true := nofun
  have hblank : ∀ line ∈ [[], [], ([] : List Char)], allBlank line = true := by decide
  refine ⟨hnotes, hdivides, hunique, ?_, fun htogether => ?_, hjoin⟩
  · exact (hdivides.together_iff [] _ [] _ _ hlines (by decide) (by decide) hnone).mpr rfl
  · have hgap := (hdivides.together_iff ["First line".toList] _ [[], [], []] _ [] hlines
      (by decide) (by decide) hblank).mp htogether
    cases hgap

end Codegen

end AttributeRegistry
