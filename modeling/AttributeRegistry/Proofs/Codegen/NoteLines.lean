import AttributeRegistry.Proofs.Codegen.Paragraphs
import AttributeRegistry.Proofs.Codegen.PythonModule
import AttributeRegistry.Proofs.Codegen.RustComments

/-!
# Notes in a Rust and in a Python module

The notes of an attribute stand between its brief and its constraints (`Rust.HasNotes`,
`Python.HasNotes`). They should be the documented form of the text, `normalised`. Both emitters trim
every line of a paragraph once more, at both ends, so what stands there is that form with the
indentation of its lines lost (`Rust.hasNotes_iff`, `Python.hasNotes_iff`).

Main statement: the notes are kept iff no line of them is indented (`notes_kept_iff`).
-/

namespace AttributeRegistry.Codegen

open Text

/-- The section of some notes: nothing if there are none, else its heading between empty lines and the
notes behind it. -/
def notesSection (notes : List (List Char)) : List (List Char) :=
  if notes = [] then [] else [[], "## Notes".toList, []] ++ notes

theorem notesSection_inj {notes notes' : List (List Char)} :
    notesSection notes = notesSection notes' ↔ notes = notes' := by
  unfold notesSection
  split <;> split <;> simp_all [eq_comm]

/-- The section with some paragraphs is that of their lines with empty lines in between. -/
theorem notesSection_trimmed (text : List Char) :
    (if paragraphs text = [] then []
      else [[], "## Notes".toList] ++ spaced ((paragraphs text).map (List.map trim))) =
      notesSection ((normalised text).map trim) := by
  have hspaced : spaced ((paragraphs text).map (List.map trim)) =
      (if normalised text = [] then [] else [] :: normalised text).map trim := by
    rw [map_trim_paragraphs, spaced_map rfl, spaced_runs_map_trimEnd]
  have hnil : paragraphs text = [] ↔ normalised text = [] := by
    have hlength := congrArg List.length (map_trim_paragraphs text)
    rw [List.length_map, List.length_map] at hlength
    have hruns := spaced_runs_map_trimEnd text
    rw [← List.length_eq_zero_iff, hlength, List.length_eq_zero_iff]
    constructor
    · intro h
      rw [h] at hruns
      by_contra hne
      rw [if_neg hne] at hruns
      cases hruns
    · intro h
      rw [if_pos h, spaced, List.flatMap_eq_nil_iff] at hruns
      exact List.eq_nil_iff_forall_not_mem.mpr fun run hrun => absurd (hruns run hrun) (by simp)
  by_cases h : paragraphs text = []
  · rw [if_pos h, hnil.mp h]
    rfl
  · rw [if_neg h, hspaced, if_neg fun hnormal => h (hnil.mpr hnormal), notesSection,
      if_neg (by simpa using fun hnormal => h (hnil.mpr hnormal))]
    rfl

/-- A line of a paragraph is one line when it is trimmed. -/
theorem lines_trim {line : List Char} (hblank : allBlank line = false) (hline : '\n' ∉ line) :
    Text.lines (trim line) = [trim line] := by
  refine lines_of_not_mem ?_ fun hmem =>
    hline ((List.dropWhile_sublist _).subset (trimEnd_subset hmem))
  intro hnil
  rw [← allBlank_trim, hnil] at hblank
  cases hblank

/-- The notes of an attribute, by paragraphs. -/
theorem noteParagraphs_ofAttribute (a : Attribute) :
    (Doc.ofAttribute a).noteParagraphs = a.notes.elim [] fun notes => paragraphs notes.toList := by
  unfold Doc.noteParagraphs Doc.ofAttribute
  cases a.notes <;> rfl

variable {v : ValidRegistry} {p : Profiles} {a : Attribute} {n : String}

/-! ## Rust -/

namespace Rust

/-- A comment line without the mark in front of it. -/
def uncommented (line : List Char) : List Char :=
  (dropBeginning? "/// ".toList line).getD ((dropBeginning? "///".toList line).getD line)

/-- The lines of an attribute and the empty one before them. -/
def attributeLines (a : Attribute) : List (List Char) :=
  [] :: (constant (Doc.ofAttribute a)).flatMap (splitOn '\n')

/-- The lines in front of the notes of an attribute: the header, the attributes before it and its
brief. -/
def linesBefore (v : Version) (as : List Attribute) (a : Attribute) : List (List Char) :=
  [("// " ++ header).toList, ("// " ++ versionLine v).toList] ++ as.flatMap attributeLines
    ++ [] :: docLines a.brief.toList

/-- The lines behind the notes of an attribute: its constraints and examples, its mark and its
declaration, and the attributes behind it. -/
def linesBehind (a : Attribute) (bs : List Attribute) : List (List Char) :=
  (listSection "Constraints" (a.constraints.map fun c => c.describe.toList)
    ++ listSection "Examples" (a.examples.map fun e => ['\x60'] ++ e.displayText.toList ++ ['\x60'])
    ++ deprecation (Doc.ofAttribute a) ++ [declaration (Doc.ofAttribute a)]).flatMap (splitOn '\n')
    ++ bs.flatMap attributeLines ++ [[]]

/-- Between the brief of an attribute and its constraints the module has these lines, each in a comment. -/
def HasNotes (v : ValidRegistry) (p : Profiles) (a : Attribute) (lines : List (List Char)) : Prop :=
  ∃ as bs found, v.registry.attributes = as ++ a :: bs ∧
    splitOn '\n' (render v p .rust).content.toList =
      linesBefore v.registry.version as a ++ found ++ linesBehind a bs ∧
    found.map uncommented = lines

/-- A line of a paragraph becomes one comment line, which is read as the line trimmed. -/
theorem uncommented_docLines {line : List Char} (hblank : allBlank line = false) (hline : '\n' ∉ line) :
    (docLines line).map uncommented = [trim line] := by
  have hne : ¬allBlank (trim line) = true := by simp [allBlank_trim, hblank]
  rw [docLines, lines_trim hblank hline, List.map_singleton, List.map_singleton, docLine,
    if_neg hne, trimEnd_trim, uncommented, dropBeginning?_append, Option.getD_some]

theorem uncommented_notes (hn : a.notes = some n) :
    (notes (Doc.ofAttribute a)).map uncommented = notesSection ((normalised n.toList).map trim) := by
  have hparagraphs : (Doc.ofAttribute a).noteParagraphs = paragraphs n.toList := by
    rw [noteParagraphs_ofAttribute, hn]
    rfl
  rw [← notesSection_trimmed, notes, hparagraphs]
  simp only [List.isEmpty_iff]
  split
  · rfl
  · have hlines : ∀ paragraph ∈ paragraphs n.toList,
        ("///".toList :: paragraph.flatMap docLines).map uncommented = [] :: paragraph.map trim := by
      intro paragraph hparagraph
      rw [List.map_cons, List.map_flatMap, List.map_eq_flatMap]
      congr 1
      refine List.flatMap_congr fun line hline => ?_
      obtain ⟨hblank, hno⟩ := of_mem_paragraphs hparagraph hline
      exact uncommented_docLines hblank hno
    rw [List.map_append, List.map_flatMap, List.flatMap_congr hlines, spaced, List.flatMap_map]
    rfl

theorem attributeLines_eq (a : Attribute) (bs : List Attribute) :
    attributeLines a ++ bs.flatMap attributeLines ++ [[]] =
      [] :: docLines a.brief.toList ++ notes (Doc.ofAttribute a) ++ linesBehind a bs := by
  have hbrief : (docLines a.brief.toList).flatMap (splitOn '\n') = docLines a.brief.toList :=
    flatMap_splitOn_of_not_mem fun _ hline => (isComment_of_mem_docLines hline).2
  have hnotes : (notes (Doc.ofAttribute a)).flatMap (splitOn '\n') = notes (Doc.ofAttribute a) :=
    flatMap_splitOn_of_not_mem fun _ hline => (isComment_of_mem_notes hline).2
  have hconstant : constant (Doc.ofAttribute a) =
      docLines a.brief.toList ++ notes (Doc.ofAttribute a)
        ++ (listSection "Constraints" (a.constraints.map fun c => c.describe.toList)
          ++ listSection "Examples" (a.examples.map fun e => ['\x60'] ++ e.displayText.toList ++ ['\x60'])
          ++ deprecation (Doc.ofAttribute a) ++ [declaration (Doc.ofAttribute a)]) := by
    unfold constant Doc.ofAttribute
    simp only [List.map_map, List.append_assoc]
    rfl
  rw [attributeLines, hconstant, List.flatMap_append, List.flatMap_append, hbrief, hnotes, linesBehind]
  simp only [List.cons_append, List.append_assoc]

theorem splitOn_content (v : ValidRegistry) (p : Profiles) :
    splitOn '\n' (render v p .rust).content.toList =
      [("// " ++ header).toList, ("// " ++ versionLine v.registry.version).toList]
        ++ v.registry.attributes.flatMap attributeLines ++ [[]] := by
  have hheader : Plain ("// " ++ header).toList := by decide
  have hversion : Plain ("// " ++ versionLine v.registry.version).toList := by
    unfold versionLine
    simp only [String.toList_append, plain_append]
    exact ⟨by decide, by decide, plain_versionText _⟩
  unfold render
  dsimp only
  rw [String.toList_ofList, emit, splitOn_unlines, Rust.lines, List.flatMap_append, List.flatMap_cons,
    List.flatMap_singleton, splitOn_eq_singleton hheader.not_mem_newline,
    splitOn_eq_singleton hversion.not_mem_newline, docs, List.flatMap_map, List.flatMap_assoc]
  rfl

/-- **The notes in a Rust module are trimmed line by line.** -/
theorem hasNotes_iff (ha : a ∈ v.registry.attributes) (hn : a.notes = some n) {lines : List (List Char)} :
    HasNotes v p a lines ↔ lines = notesSection ((normalised n.toList).map trim) := by
  have hsplit : ∀ as bs, v.registry.attributes = as ++ a :: bs →
      splitOn '\n' (render v p .rust).content.toList = linesBefore v.registry.version as a
        ++ notes (Doc.ofAttribute a) ++ linesBehind a bs := by
    intro as bs hattributes
    have hlines := attributeLines_eq a bs
    rw [splitOn_content, hattributes, List.flatMap_append, List.flatMap_cons, linesBefore]
    simp only [List.append_assoc, List.cons_append] at hlines ⊢
    rw [hlines]
  constructor
  · rintro ⟨as, bs, found, hattributes, htext, rfl⟩
    rw [hsplit as bs hattributes, List.append_left_inj, List.append_right_inj] at htext
    rw [← htext, uncommented_notes hn]
  · rintro rfl
    obtain ⟨as, bs, hattributes⟩ := List.append_of_mem ha
    exact ⟨as, bs, _, hattributes, hsplit as bs hattributes, uncommented_notes hn⟩

end Rust

/-! ## Python -/

namespace Python

/-- The text in front of what the documentation string of an attribute says: the header, the attributes
before it, and its assignment. -/
def textBefore (v : Version) (p : PythonProfile) (as : List Attribute) (a : Attribute) : List Char :=
  opening v p ++ (as.flatMap fun b => '\n' :: block b)
    ++ '\n' :: assigned (constantName a.key) a.key ++ "\n    \"\"\"".toList

/-- The lines in front of the notes: the brief and the replacement. -/
def linesBefore (a : Attribute) : List (List Char) :=
  [] :: textLines a.brief.toList ++
    match a.replacement? with
    | none => []
    | some key => [] :: textLines ("Deprecated: replaced by `" ++ key ++ "`.").toList

/-- The lines behind the notes: the constraints and the examples. -/
def linesBehind (a : Attribute) : List (List Char) :=
  itemLines "Constraints" (a.constraints.map fun c => c.describe.toList)
    ++ itemLines "Examples" (a.examples.map fun e => ['\x60'] ++ e.displayText.toList ++ ['\x60']) ++ [[]]

/-- The documentation string of an attribute has these lines between the brief and the constraints, read
and without the indentation of the string. -/
def HasNotes (v : ValidRegistry) (p : Profiles) (a : Attribute) (lines : List (List Char)) : Prop :=
  ∃ as bs behind text rest, v.registry.attributes = as ++ a :: bs ∧
    (render v p .python).content.toList = textBefore v.registry.version p.python as a ++ behind ∧
    readDocstring behind = some (text, rest) ∧
    (splitOn '\n' text).map dedent = linesBefore a ++ lines ++ linesBehind a

theorem noteLines_paragraphs (text : List Char) :
    noteLines (paragraphs text) = notesSection ((normalised text).map trim) := by
  rw [← notesSection_trimmed, noteLines]
  split
  · rfl
  · have hlines : ∀ paragraph ∈ paragraphs text,
        [] :: paragraph.flatMap textLines = [] :: paragraph.map trim := by
      intro paragraph hparagraph
      rw [List.map_eq_flatMap]
      congr 1
      refine List.flatMap_congr fun line hline => ?_
      obtain ⟨hblank, hno⟩ := of_mem_paragraphs hparagraph hline
      rw [textLines, lines_trim hblank hno, List.map_singleton, trimEnd_trim]
    rw [List.flatMap_congr hlines, spaced, List.flatMap_map]

theorem documentation_eq (hn : a.notes = some n) :
    [] :: documentation a ++ [[]] =
      linesBefore a ++ notesSection ((normalised n.toList).map trim) ++ linesBehind a := by
  rw [documentation, hn, Option.elim_some, noteLines_paragraphs, linesBefore, linesBehind]
  cases a.replacement? <;> simp only [List.append_assoc, List.cons_append]

/-- Behind the quotes that begin an attribute's string stands what its block goes on with. -/
theorem content_eq {as bs : List Attribute} (h : v.registry.attributes = as ++ a :: bs) :
    ∃ rest, (render v p .python).content.toList =
      textBefore v.registry.version p.python as a ++ (body a ++ rest) := by
  refine ⟨(bs.flatMap fun b => '\n' :: block b) ++ '\n' :: mapping v, ?_⟩
  unfold render
  dsimp only
  rw [String.toList_ofList, emit_docs, classBody, if_neg (by simp [h]), h, List.nil_append,
    List.flatMap_append, List.flatMap_cons, block_eq, textBefore]
  simp only [List.append_assoc, List.cons_append]

/-- **The notes in a Python module are trimmed line by line.** -/
theorem hasNotes_iff (ha : a ∈ v.registry.attributes) (hn : a.notes = some n) {lines : List (List Char)} :
    HasNotes v p a lines ↔ lines = notesSection ((normalised n.toList).map trim) := by
  have hdedent : (splitOn '\n' (text a)).map dedent =
      linesBefore a ++ notesSection ((normalised n.toList).map trim) ++ linesBehind a := by
    rw [splitOn_text, ← documentation_eq hn]
    rfl
  constructor
  · rintro ⟨as, bs, behind, text', rest', hattributes, htext, hread, hlines⟩
    obtain ⟨rest, hcontent⟩ := content_eq (p := p) hattributes
    rw [hcontent, List.append_right_inj] at htext
    rw [← htext, readDocstring_body, Option.some.injEq, Prod.mk.injEq] at hread
    rw [← hread.1, hdedent, List.append_left_inj, List.append_right_inj] at hlines
    exact hlines.symm
  · rintro rfl
    obtain ⟨as, bs, hattributes⟩ := List.append_of_mem ha
    obtain ⟨rest, hcontent⟩ := content_eq (p := p) hattributes
    exact ⟨as, bs, _, _, _, hattributes, hcontent, readDocstring_body a rest, hdedent⟩

end Python

/-! ## Indentation -/

theorem map_trim_normalised_iff (text : List Char) :
    (normalised text).map trim = normalised text ↔
      ∀ line ∈ normalised text, ∀ c ∈ line.head?, isBlank c = false := by
  calc (normalised text).map trim = normalised text
    _ ↔ (normalised text).map trim = (normalised text).map id := by rw [List.map_id]
    _ ↔ ∀ line ∈ normalised text, trim line = line := List.map_inj_left
    _ ↔ ∀ line ∈ normalised text, ∀ c ∈ line.head?, isBlank c = false :=
      forall₂_congr fun line hline => trim_eq_self_iff (trimEnd_of_mem_normalised hline)

/-- **Notes keep their lines iff none of them is indented.** In both modules they are the documented form
of the text with every line trimmed. -/
theorem notes_kept_iff (ha : a ∈ v.registry.attributes) (hn : a.notes = some n) :
    (∀ lines, Rust.HasNotes v p a lines ↔ lines = notesSection ((normalised n.toList).map trim)) ∧
      (∀ lines, Python.HasNotes v p a lines ↔
        lines = notesSection ((normalised n.toList).map trim)) ∧
      (Rust.HasNotes v p a (notesSection (normalised n.toList)) ∧
          Python.HasNotes v p a (notesSection (normalised n.toList)) ↔
        ∀ line ∈ normalised n.toList, ∀ c ∈ line.head?, isBlank c = false) := by
  refine ⟨fun _ => Rust.hasNotes_iff ha hn, fun _ => Python.hasNotes_iff ha hn, ?_⟩
  rw [Rust.hasNotes_iff ha hn, Python.hasNotes_iff ha hn, and_self, notesSection_inj,
    ← map_trim_normalised_iff, eq_comm]

/-- An attribute with some notes. -/
private def noted (notes : String) : Attribute :=
  (Attribute.new "host.id" (.primitive (.scalar .string)) "The host." [.text "a1"]).withNotes notes

/-- A registry with that attribute. -/
private def noting (notes : String) : Registry :=
  { version := .release 1 0 0, entries := [⟨noted notes, []⟩], ordered := by simp }

/-- Two paragraphs without indentation are kept, whatever blank lines stand around and between them. -/
theorem notes_kept_flush : ∃ v,
    (noting "\n \nOne\t\n- two  \n\n \nthree\r\n").validate [] false = .ok v ∧
      noted "\n \nOne\t\n- two  \n\n \nthree\r\n" ∈ v.registry.attributes ∧
      Rust.HasNotes v .default (noted "\n \nOne\t\n- two  \n\n \nthree\r\n")
        (["", "## Notes", "", "One", "- two", "", "three"].map String.toList) ∧
      Python.HasNotes v .default (noted "\n \nOne\t\n- two  \n\n \nthree\r\n")
        (["", "## Notes", "", "One", "- two", "", "three"].map String.toList) := by
  obtain ⟨v, hv⟩ := Registry.exists_validate_iff.mpr
    (show ((noting "\n \nOne\t\n- two  \n\n \nthree\r\n").allFindings [] false).hasErrors = false by
      decide +kernel)
  have ha : noted "\n \nOne\t\n- two  \n\n \nthree\r\n" ∈ v.registry.attributes := by
    rw [Registry.registry_of_validate hv]
    exact List.mem_singleton_self _
  have hflush := (map_trim_normalised_iff "\n \nOne\t\n- two  \n\n \nthree\r\n".toList).mp
    (by decide)
  have hkept := (notes_kept_iff (p := .default) ha rfl).2.2.mpr hflush
  have hsection : notesSection (normalised "\n \nOne\t\n- two  \n\n \nthree\r\n".toList) =
      ["", "## Notes", "", "One", "- two", "", "three"].map String.toList := by
    decide
  rw [hsection] at hkept
  exact ⟨v, hv, ha, hkept⟩

/-- **A nested item loses its indentation.** -/
theorem not_notes_kept_nested : ∃ v, (noting "One of\n- a\n  - b").validate [] false = .ok v ∧
    noted "One of\n- a\n  - b" ∈ v.registry.attributes ∧
    ¬Rust.HasNotes v .default (noted "One of\n- a\n  - b")
      (notesSection (normalised "One of\n- a\n  - b".toList)) ∧
    ¬Python.HasNotes v .default (noted "One of\n- a\n  - b")
      (notesSection (normalised "One of\n- a\n  - b".toList)) := by
  obtain ⟨v, hv⟩ := Registry.exists_validate_iff.mpr
    (show ((noting "One of\n- a\n  - b").allFindings [] false).hasErrors = false by decide +kernel)
  have ha : noted "One of\n- a\n  - b" ∈ v.registry.attributes := by
    rw [Registry.registry_of_validate hv]
    exact List.mem_singleton_self _
  refine ⟨v, hv, ha, ?_, ?_⟩
  · rw [Rust.hasNotes_iff ha rfl]
    decide
  · rw [Python.hasNotes_iff ha rfl]
    decide

end AttributeRegistry.Codegen
