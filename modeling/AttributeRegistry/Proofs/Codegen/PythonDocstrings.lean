import AttributeRegistry.Proofs.Codegen.Key
import AttributeRegistry.Proofs.Codegen.PythonEscape
import AttributeRegistry.Proofs.Text.Trimming
import Mathlib.Data.List.TakeWhile

/-!
# Documentation strings in a Python module

The lines of an attribute's documentation string are what is said about it (`documentation`), indented
and escaped (`docstring_eq`). Reading the string ends at the quotes that the emitter ends it with
(`readDocstring_body`), and gives these lines back (`splitOn_text`), so that the code outside of it is
the assignment of the constant alone (`undocumented_block`).
-/

namespace AttributeRegistry.Codegen.Python

open Text

variable {cs : List Char}

/-! ## The lines of a documentation string -/

/-- The lines of a text without the blanks around it and at their ends. -/
def textLines (text : List Char) : List (List Char) :=
  (Text.lines (trim text)).map trimEnd

/-- A section with one item for each text. -/
def itemLines (title : String) (items : List (List Char)) : List (List Char) :=
  if items = [] then []
  else [[], "## ".toList ++ title.toList, []]
    ++ items.flatMap fun item => textLines ("- ".toList ++ item)

/-- The paragraphs of the notes. -/
def noteLines (paragraphs : List (List (List Char))) : List (List Char) :=
  if paragraphs = [] then []
  else [[], "## Notes".toList]
    ++ paragraphs.flatMap fun paragraph => [] :: paragraph.flatMap textLines

/-- What is said about an attribute, line by line. -/
def documentation (a : Attribute) : List (List Char) :=
  textLines a.brief.toList
    ++ (match a.replacement? with
      | none => []
      | some key => [] :: textLines ("Deprecated: replaced by `" ++ key ++ "`.").toList)
    ++ noteLines (a.notes.elim [] fun notes => paragraphs notes.toList)
    ++ itemLines "Constraints" (a.constraints.map fun c => c.describe.toList)
    ++ itemLines "Examples" (a.examples.map fun e => ['\x60'] ++ e.displayText.toList ++ ['\x60'])

/-- A line without its indentation. -/
def dedent (line : List Char) : List Char :=
  (dropBeginning? indent line).getD line

/-- A line as it is written. -/
def written (line : List Char) : List Char :=
  if line = [] then [] else indent ++ escape line

/-- A line as it is read. -/
def indented (line : List Char) : List Char :=
  if line = [] then [] else indent ++ line

theorem escape_of_not_mem (hquote : '"' ∉ cs) (hbackslash : '\\' ∉ cs) : escape cs = cs := by
  rw [escape_eq_escaped]
  induction cs with
  | nil => rfl
  | cons c cs ih =>
    rw [List.mem_cons, not_or] at hquote hbackslash
    rw [escaped_cons (ordinary_of_ne (Ne.symm hbackslash.1) (Ne.symm hquote.1)),
      ih hquote.2 hbackslash.2]

theorem docLine_eq (line : List Char) : docLine line = written (trimEnd line) := by
  unfold docLine written
  by_cases hblank : allBlank line = true
  · rw [if_pos hblank, if_pos (allBlank_iff_trimEnd_eq_nil.mp hblank)]
  · rw [if_neg hblank, if_neg fun hnil => hblank (allBlank_iff_trimEnd_eq_nil.mpr hnil)]

theorem docLines_eq (text : List Char) : docLines text = (textLines text).map written := by
  rw [docLines, textLines, List.map_map]
  congr 1
  funext line
  exact docLine_eq line

theorem notes_eq (d : Doc) : notes d = (noteLines d.noteParagraphs).map written := by
  have hheading : written "## Notes".toList = indent ++ "## Notes".toList := by
    rw [written, if_neg (by decide), escape_of_not_mem (by decide) (by decide)]
  unfold notes noteLines
  simp only [List.isEmpty_iff]
  split
  · rfl
  · rw [List.map_append, List.map_flatMap]
    simp only [List.map_cons, List.map_flatMap, ← docLines_eq, hheading]
    rfl

theorem listSection_eq {title : String} (hquote : '"' ∉ title.toList) (hbackslash : '\\' ∉ title.toList)
    (items : List (List Char)) : listSection title items = (itemLines title items).map written := by
  have hheading : written ("## ".toList ++ title.toList) = indent ++ "## ".toList ++ title.toList := by
    rw [written, if_neg (by simp), escape_of_not_mem (by simp [hquote]) (by simp [hbackslash]),
      List.append_assoc]
  unfold listSection itemLines
  simp only [List.isEmpty_iff]
  split
  · rfl
  · rw [List.map_append, List.map_flatMap]
    simp only [List.map_cons, ← docLines_eq, hheading]
    rfl

theorem docstring_eq (a : Attribute) :
    docstring (Doc.ofAttribute a) = (documentation a).map written := by
  have hdeprecation : deprecation (Doc.ofAttribute a) = List.map written (match a.replacement? with
      | none => []
      | some key => [] :: textLines ("Deprecated: replaced by `" ++ key ++ "`.").toList) := by
    unfold deprecation Doc.ofAttribute
    cases a.replacement? with
    | none => rfl
    | some key =>
      rw [List.map_cons, ← docLines_eq]
      rfl
  have hconstraints : (Doc.ofAttribute a).constraints.map String.toList =
      a.constraints.map fun c => c.describe.toList := by
    rw [Doc.ofAttribute, List.map_map]
    rfl
  have hexamples : ((Doc.ofAttribute a).examples.map fun e => ['\x60'] ++ e.toList ++ ['\x60']) =
      a.examples.map fun e => ['\x60'] ++ e.displayText.toList ++ ['\x60'] := by
    rw [Doc.ofAttribute, List.map_map]
    rfl
  have hnotes : (Doc.ofAttribute a).noteParagraphs =
      a.notes.elim [] fun notes => paragraphs notes.toList := by
    unfold Doc.noteParagraphs Doc.ofAttribute
    cases a.notes <;> rfl
  unfold docstring documentation
  rw [hdeprecation, hconstraints, hexamples, docLines_eq, notes_eq, hnotes, listSection_eq (by decide) (by decide),
    listSection_eq (by decide) (by decide)]
  simp only [List.map_append]
  rfl

/-- Every line is read as it stands behind its indentation. -/
theorem reads_written (line : List Char) : Reads (written line ++ ['\n']) (indented line ++ ['\n']) := by
  unfold written indented
  split
  · exact .of_not_mem (by decide) (by decide)
  · rw [List.append_assoc, List.append_assoc]
    exact (Reads.of_not_mem (by decide) (by decide)).append (reads_line line)

theorem reads_unlines (lines : List (List Char)) :
    Reads (unlines (lines.map written)) (unlines (lines.map indented)) := by
  unfold unlines
  rw [List.flatMap_map, List.flatMap_map]
  exact Reads.flatMap fun line _ => reads_written line

theorem dedent_indented (line : List Char) : dedent (indented line) = line := by
  unfold dedent indented
  split
  · next hnil => rw [hnil]; rfl
  · rw [dropBeginning?_append]
    rfl

theorem newline_not_mem_textLines {text line : List Char} (h : line ∈ textLines text) : '\n' ∉ line := by
  obtain ⟨l, hl, rfl⟩ := List.mem_map.mp h
  exact fun hmem => newline_not_mem_of_mem_lines hl (trimEnd_subset hmem)

theorem newline_not_mem_noteLines {paragraphs : List (List (List Char))} {line : List Char}
    (h : line ∈ noteLines paragraphs) : '\n' ∉ line := by
  unfold noteLines at h
  split at h
  · exact absurd h List.not_mem_nil
  · simp only [List.mem_append, List.mem_cons, List.not_mem_nil, or_false] at h
    rcases h with (rfl | rfl) | h
    · exact List.not_mem_nil
    · decide
    · obtain ⟨paragraph, -, h⟩ := List.mem_flatMap.mp h
      rcases List.mem_cons.mp h with rfl | h
      · exact List.not_mem_nil
      · obtain ⟨text, -, h⟩ := List.mem_flatMap.mp h
        exact newline_not_mem_textLines h

theorem newline_not_mem_itemLines {title : String} (htitle : '\n' ∉ title.toList)
    {items : List (List Char)} {line : List Char} (h : line ∈ itemLines title items) : '\n' ∉ line := by
  unfold itemLines at h
  split at h
  · exact absurd h List.not_mem_nil
  · simp only [List.mem_append, List.mem_cons, List.not_mem_nil, or_false] at h
    rcases h with (rfl | rfl | rfl) | h
    · exact List.not_mem_nil
    · simp [htitle]
    · exact List.not_mem_nil
    · obtain ⟨item, -, h⟩ := List.mem_flatMap.mp h
      exact newline_not_mem_textLines h

theorem newline_not_mem_documentation {a : Attribute} {line : List Char}
    (h : line ∈ documentation a) : '\n' ∉ line := by
  unfold documentation at h
  simp only [List.mem_append] at h
  rcases h with (((h | h) | h) | h) | h
  · exact newline_not_mem_textLines h
  · split at h
    · exact absurd h List.not_mem_nil
    · rcases List.mem_cons.mp h with rfl | h
      · exact List.not_mem_nil
      · exact newline_not_mem_textLines h
  · exact newline_not_mem_noteLines h
  · exact newline_not_mem_itemLines (by decide) h
  · exact newline_not_mem_itemLines (by decide) h

/-! ## The block of an attribute -/

/-- The line that assigns a key to a name. -/
def assigned (name key : String) : List Char :=
  indent ++ (name ++ " = \"" ++ key ++ "\"").toList

/-- The lines of an attribute. -/
def block (a : Attribute) : List Char :=
  unlines (constant (Doc.ofAttribute a))

/-- The block of an attribute is its assignment and one string, which ends with the block, and says what
is said about the attribute. -/
structure Documented (a : Attribute) : Prop where
  docstring : ∃ body text : List Char,
    block a = assigned (constantName a.key) a.key ++ "\n    \"\"\"".toList ++ body ∧
      readDocstring body = some (text, "\n".toList) ∧
      (splitOn '\n' text).map dedent = [[]] ++ documentation a ++ [[]]
  code : undocumented false (block a) = assigned (constantName a.key) a.key ++ "\n    \n".toList

/-- What stands in the block behind the quotes that begin the string. -/
def body (a : Attribute) : List Char :=
  unlines ([] :: (documentation a).map written ++ [quotes])

/-- The string in the block. -/
def text (a : Attribute) : List Char :=
  unlines ([] :: (documentation a).map indented) ++ indent

theorem block_eq (a : Attribute) :
    block a = assigned (constantName a.key) a.key ++ "\n    \"\"\"".toList ++ body a := by
  have hassignment : assignment (Doc.ofAttribute a) = assigned (constantName a.key) a.key := rfl
  rw [block, constant, docstring_eq, hassignment, body]
  simp only [unlines_append, unlines_cons, List.cons_append, List.nil_append, List.append_assoc]
  rfl

theorem readDocstring_body (a : Attribute) (rest : List Char) :
    readDocstring (body a ++ rest) = some (text a, '\n' :: rest) := by
  have hlines : Reads (unlines (([] :: documentation a).map written) ++ indent)
      (unlines (([] :: documentation a).map indented) ++ indent) :=
    (reads_unlines _).append (.of_not_mem (by decide) (by decide))
  have hbody : body a ++ rest = unlines (([] :: documentation a).map written) ++ indent
      ++ '"' :: '"' :: '"' :: '\n' :: rest := by
    have hquotes : unlines [quotes] = indent ++ "\"\"\"\n".toList := rfl
    rw [body, unlines_append, hquotes, List.append_assoc, List.append_assoc, List.append_assoc]
    rfl
  rw [hbody, hlines, readDocstring, Option.map_some]
  dsimp only
  rw [List.append_nil]
  rfl

theorem splitOn_text (a : Attribute) :
    (splitOn '\n' (text a)).map dedent = [[]] ++ documentation a ++ [[]] := by
  have hline : ∀ line ∈ [] :: (documentation a).map indented, '\n' ∉ line := by
    rw [List.forall_mem_cons, List.forall_mem_map]
    refine ⟨List.not_mem_nil, fun line hline => ?_⟩
    unfold indented
    split
    · exact List.not_mem_nil
    · rw [List.mem_append, not_or]
      exact ⟨by decide, newline_not_mem_documentation hline⟩
  have hdedent : dedent ∘ indented = id := funext dedent_indented
  rw [text, splitOn_unlines_append, flatMap_splitOn_of_not_mem hline, splitOn_eq_singleton (by decide),
    List.map_append, List.map_cons, List.map_map, hdedent, List.map_id]
  rfl

/-! ## Code -/

theorem undocumented_append_of_not_mem {as : List Char} (h : '"' ∉ as) (bs : List Char) :
    undocumented false (as ++ bs) = as ++ undocumented false bs := by
  induction as with
  | nil => rfl
  | cons a as ih =>
    rw [List.mem_cons, not_or] at h
    rw [List.cons_append, undocumented, ih h.2, List.cons_append]
    rintro _ rfl
    exact absurd rfl h.1

theorem undocumented_quote (h : cs.head? ≠ some '"') :
    undocumented false ('"' :: cs) = '"' :: undocumented false cs := by
  rw [undocumented]
  rintro rest - rfl
  exact h rfl

theorem undocumented_newline (cs : List Char) :
    undocumented false ('\n' :: cs) = '\n' :: undocumented false cs :=
  undocumented_append_of_not_mem (show '"' ∉ ['\n'] by decide) cs

/-- An assignment holds no documentation string. -/
theorem undocumented_assigned {name key : String} (hname : '"' ∉ name.toList) (hquote : '"' ∉ key.toList)
    (hne : key.toList ≠ []) (rest : List Char) :
    undocumented false (assigned name key ++ '\n' :: rest) =
      assigned name key ++ '\n' :: undocumented false rest := by
  have hassigned : assigned name key =
      (indent ++ name.toList ++ " = ".toList) ++ '"' :: (key.toList ++ ['"']) := by
    have hequals : " = \"".toList = " = ".toList ++ ['"'] := rfl
    have hend : "\"".toList = ['"'] := rfl
    rw [assigned, String.toList_append, String.toList_append, String.toList_append, hequals, hend]
    simp only [List.append_assoc, List.cons_append, List.nil_append]
  have hbefore : '"' ∉ indent ++ name.toList ++ " = ".toList := by
    rw [List.mem_append, List.mem_append, not_or, not_or]
    exact ⟨⟨by decide, hname⟩, by decide⟩
  -- the key is in between, so that its quotes are not three
  have hkey : (key.toList ++ '"' :: '\n' :: rest).head? ≠ some '"' := by
    obtain ⟨c, cs, hcs⟩ := List.exists_cons_of_ne_nil hne
    rw [hcs, List.mem_cons, not_or] at hquote
    rw [hcs]
    simpa using Ne.symm hquote.1
  rw [hassigned]
  simp only [List.append_assoc, List.cons_append, List.nil_append]
  rw [← List.append_assoc, ← List.append_assoc, undocumented_append_of_not_mem hbefore,
    undocumented_quote hkey, undocumented_append_of_not_mem hquote, undocumented_quote (by simp),
    undocumented_newline]
  simp only [List.append_assoc]

/-- **Without its string an attribute's block is its assignment.** -/
theorem undocumented_block {a : Attribute} (hkey : Key.WellFormed a.key.toList) (rest : List Char) :
    undocumented false (block a ++ rest) =
      assigned (constantName a.key) a.key ++ "\n    \n".toList ++ undocumented false rest := by
  have hname : '"' ∉ (constantName a.key).toList := fun hmem =>
    absurd (hkey.mem_constantName hmem) (by decide)
  have hquote : '"' ∉ a.key.toList := fun hmem => (hkey.range hmem).2.2.1 rfl
  have hstring : undocumented false ("    \"\"\"".toList ++ (body a ++ rest)) =
      "    ".toList ++ undocumented true (body a ++ rest) := rfl
  have hblock : block a ++ rest = assigned (constantName a.key) a.key
      ++ '\n' :: ("    \"\"\"".toList ++ (body a ++ rest)) := by
    rw [block_eq]
    simp only [List.append_assoc]
    rfl
  rw [hblock, undocumented_assigned hname hquote hkey.ne_nil, hstring,
    undocumented_of_readDocstring (readDocstring_body a rest), undocumented_newline, List.append_assoc]
  rfl

theorem documented {a : Attribute} (hkey : Key.WellFormed a.key.toList) : Documented a := by
  constructor
  case docstring =>
    refine ⟨body a, text a, block_eq a, ?_, splitOn_text a⟩
    have hread := readDocstring_body a []
    rwa [List.append_nil] at hread
  case code =>
    have hcode := undocumented_block hkey []
    rwa [List.append_nil, undocumented, List.append_nil] at hcode

end AttributeRegistry.Codegen.Python
