import AttributeRegistry.Codegen.Artifact
import AttributeRegistry.Proofs.Codegen.PythonDocstrings
import AttributeRegistry.Proofs.Validation.Complete

/-!
# What a Python module says

Behind its header a module is the body of a class and a dictionary (`emit_docs`). Outside of the
documentation strings the class holds the constants and nothing else (`codeLines_classBody`), and the
dictionary is read back (`readDictionary_unlines`).

Main statement: the module of every validated registry documents its attributes, whatever their texts
are (`documents_of_validate`).
-/

namespace AttributeRegistry.Codegen.Python

open Text

/-! ## The dictionary -/

/-- The entry on a line of a dictionary: two strings, with a colon between and a comma behind them. -/
def pair? (line : List Char) : Option (String × String) :=
  match splitOn '"' line with
  | [before, key, between, new, behind] =>
    if before = indent ∧ between = ": ".toList ∧ behind = [','] then
      some (String.ofList key, String.ofList new)
    else none
  | _ => none

/-- The entries on the lines of a dictionary up to its closing brace, which ends the file. -/
def readEntries : List (List Char) → Option (List (String × String))
  | [] => none
  | [] :: lines => readEntries lines
  | line :: lines =>
    if line = ['\x7d'] then if lines = [[]] then some [] else none
    else do
      let e ← pair? line
      let es ← readEntries lines
      return e :: es

/-- The entries of a dictionary. -/
def readDictionary (text : List Char) : Option (List (String × String)) := do
  let rest ← dropBeginning? "DEPRECATED_ATTRIBUTES: dict[str, str] = \x7b".toList text
  readEntries (splitOn '\n' rest)

/-- The line of an entry. -/
def pairLine (e : String × String) : List Char :=
  indent ++ ("\"" ++ e.1 ++ "\": \"" ++ e.2 ++ "\",").toList

theorem pair?_pairLine {e : String × String} (hkey : '"' ∉ e.1.toList) (hnew : '"' ∉ e.2.toList) :
    pair? (pairLine e) = some e := by
  have hparts : pairLine e =
      joinWith ['"'] [indent, e.1.toList, ": ".toList, e.2.toList, [',']] := by
    have hbetween : "\": \"".toList = ['"'] ++ ": ".toList ++ ['"'] := rfl
    have hbehind : "\",".toList = ['"'] ++ [','] := rfl
    have hquote : "\"".toList = ['"'] := rfl
    simp only [pairLine, String.toList_append, joinWith, hbetween, hbehind, hquote,
      List.append_assoc]
  have hno : ∀ part ∈ [indent, e.1.toList, ": ".toList, e.2.toList, [',']], '"' ∉ part := by
    simp only [List.forall_mem_cons, List.not_mem_nil, false_implies, implies_true, and_true]
    exact ⟨by decide, hkey, by decide, hnew, by decide⟩
  rw [pair?, hparts, splitOn_joinWith (by simp) hno]
  simp

theorem newline_not_mem_pairLine {e : String × String} (hkey : Plain e.1.toList)
    (hnew : Plain e.2.toList) : '\n' ∉ pairLine e := by
  refine Plain.not_mem_newline ?_
  simp only [pairLine, String.toList_append, plain_append]
  exact ⟨by decide, ⟨⟨⟨by decide, hkey⟩, by decide⟩, hnew⟩, by decide⟩

theorem readEntries_cons {line : List Char} {lines : List (List Char)} {e : String × String}
    (h : pair? line = some e) : readEntries (line :: lines) = (readEntries lines).map (e :: ·) := by
  rw [readEntries, if_neg, h]
  · cases readEntries lines <;> rfl
  · rintro rfl
    cases h
  · rintro rfl
    cases h

theorem readEntries_append {es : List (String × String)} (h : ∀ e ∈ es, pair? (pairLine e) = some e) :
    readEntries (es.map pairLine ++ [['\x7d'], []]) = some es := by
  induction es with
  | nil => rfl
  | cons e es ih =>
    rw [List.forall_mem_cons] at h
    rw [List.map_cons, List.cons_append, readEntries_cons h.1, ih h.2]
    rfl

/-- **A dictionary of well-formed keys is read back.** -/
theorem readDictionary_unlines {ds : List Doc}
    (h : ∀ e ∈ replacements ds, Key.WellFormed e.1.toList ∧ Key.WellFormed e.2.toList) :
    readDictionary (unlines (dictionary ds)) = some (replacements ds) := by
  have hpair : ∀ e ∈ replacements ds, pair? (pairLine e) = some e := by
    intro e he
    refine pair?_pairLine (fun hmem => ?_) fun hmem => ?_
    · exact ((h e he).1.range hmem).2.2.1 rfl
    · exact ((h e he).2.range hmem).2.2.1 rfl
  have hline : ∀ line ∈ (replacements ds).map pairLine, '\n' ∉ line := by
    rw [List.forall_mem_map]
    exact fun e he => newline_not_mem_pairLine (.of_wellFormed (h e he).1) (.of_wellFormed (h e he).2)
  unfold dictionary
  dsimp only
  split
  · next hnil =>
    rw [hnil]
    rfl
  · next hne =>
    have htext : unlines (["DEPRECATED_ATTRIBUTES: dict[str, str] = \x7b".toList]
        ++ (replacements ds).map pairLine ++ ["\x7d".toList]) =
        "DEPRECATED_ATTRIBUTES: dict[str, str] = \x7b".toList
          ++ '\n' :: (unlines ((replacements ds).map pairLine) ++ "\x7d\n".toList) := by
      rw [unlines_append, List.singleton_append, unlines_cons, List.append_assoc, List.cons_append]
      rfl
    have hlast : splitOn '\n' "\x7d\n".toList = [['\x7d'], []] := rfl
    refine (congrArg readDictionary htext).trans ?_
    rw [readDictionary, dropBeginning?_append, Option.bind_eq_bind, Option.bind_some, splitOn_cons_self,
      readEntries, splitOn_unlines_append, flatMap_splitOn_of_not_mem hline, hlast]
    exact readEntries_append hpair

/-! ## The module -/

variable {r : Registry} {prior : Report} {strict : Bool} {v : ValidRegistry}

/-- The lines of code of a text. -/
def codeLines (text : List Char) : List (List Char) :=
  (splitOn '\n' (undocumented false text)).filter fun line => !allBlank line

/-- The lines in front of the body of the class. -/
def opening (version : Version) (p : PythonProfile) : List Char :=
  unlines [("# " ++ header).toList, ("# " ++ versionLine version).toList, [],
    ("class " ++ p.className ++ ":").toList]

/-- The body of the class. -/
def classBody (v : ValidRegistry) : List Char :=
  (if v.registry.attributes = [] then "    pass\n".toList else [])
    ++ v.registry.attributes.flatMap fun a => '\n' :: block a

/-- The dictionary behind the class. -/
def mapping (v : ValidRegistry) : List Char :=
  unlines (dictionary (docs v))

/-- What a module says: each attribute is documented, outside of the strings the class has one constant
for each, in the order of the keys, and the dictionary has the deprecated ones with their replacements. -/
structure Documents (v : ValidRegistry) : Prop where
  attributes : ∀ a ∈ v.registry.attributes, Documented a
  keys : (v.registry.attributes.map Attribute.key).Pairwise fun k l => compare k l = .lt
  code : codeLines (classBody v) = if v.registry.attributes = [] then ["    pass".toList]
    else v.registry.attributes.map fun a => assigned (constantName a.key) a.key
  replacements : ∃ es, readDictionary (mapping v) = some es ∧
    es.map Prod.fst = (v.registry.attributes.filter Attribute.isDeprecated).map Attribute.key ∧
    ∀ key new, (key, new) ∈ es ↔
      ∃ a ∈ v.registry.attributes, a.key = key ∧ a.isDeprecated ∧ a.deprecatedBy = some new
  file : ∀ p : PythonProfile, emit (docs v) v.registry.version p =
    opening v.registry.version p ++ classBody v ++ '\n' :: mapping v

theorem undocumented_blocks {as : List Attribute} (h : ∀ a ∈ as, Key.WellFormed a.key.toList) :
    undocumented false (as.flatMap fun a => '\n' :: block a) =
      unlines (as.flatMap fun a => [[], assigned (constantName a.key) a.key, indent]) := by
  induction as with
  | nil => rfl
  | cons a as ih =>
    rw [List.forall_mem_cons] at h
    have hlines : ∀ line, unlines [[], line, indent] = '\n' :: (line ++ "\n    \n".toList) := by
      intro line
      rw [unlines_cons, unlines_cons]
      rfl
    rw [List.flatMap_cons, List.flatMap_cons, List.cons_append, undocumented_newline,
      undocumented_block h.1, ih h.2, unlines_append, hlines, List.cons_append]

theorem newline_not_mem_assigned {key : String} (h : Key.WellFormed key.toList) :
    '\n' ∉ assigned (constantName key) key := by
  refine Plain.not_mem_newline ?_
  simp only [assigned, String.toList_append, plain_append]
  exact ⟨by decide, ⟨⟨plain_constantName h, by decide⟩, .of_wellFormed h⟩, by decide⟩

theorem allBlank_assigned (name key : String) : allBlank (assigned name key) = false := by
  rw [allBlank, List.all_eq_false]
  refine ⟨'"', ?_, by decide⟩
  simp [assigned]

/-- **Outside of the strings the class has the constants and nothing else.** -/
theorem codeLines_classBody (h : ∀ a ∈ v.registry.attributes, Key.WellFormed a.key.toList) :
    codeLines (classBody v) = if v.registry.attributes = [] then ["    pass".toList]
      else v.registry.attributes.map fun a => assigned (constantName a.key) a.key := by
  by_cases hnil : v.registry.attributes = []
  · rw [if_pos hnil, classBody, if_pos hnil, hnil]
    rfl
  · have hline : ∀ line ∈ v.registry.attributes.flatMap fun a =>
        [[], assigned (constantName a.key) a.key, indent], '\n' ∉ line := by
      rw [List.forall_mem_flatMap]
      intro a ha
      simp only [List.forall_mem_cons, List.not_mem_nil, false_implies, implies_true, and_true,
        not_false_eq_true, true_and]
      exact ⟨newline_not_mem_assigned (h a ha), by decide⟩
    have hfilter : ∀ a : Attribute, [[], assigned (constantName a.key) a.key, indent].filter
        (fun line => !allBlank line) = [assigned (constantName a.key) a.key] := by
      intro a
      have hindent : allBlank indent = true := by decide
      simp [allBlank_assigned, hindent, show allBlank [] = true from rfl]
    rw [if_neg hnil, classBody, if_neg hnil, List.nil_append, codeLines, undocumented_blocks h,
      splitOn_unlines, flatMap_splitOn_of_not_mem hline, List.filter_append, List.filter_flatMap]
    simp only [hfilter]
    rw [← List.map_eq_flatMap]
    exact List.append_nil _

theorem emit_docs (v : ValidRegistry) (version : Version) (p : PythonProfile) :
    emit (docs v) version p = opening version p ++ classBody v ++ '\n' :: mapping v := by
  have hblocks : ∀ as : List Attribute,
      unlines ((as.map Doc.ofAttribute).flatMap fun d => [] :: constant d) =
        as.flatMap fun a => '\n' :: block a := by
    intro as
    rw [List.flatMap_map, unlines, List.flatMap_assoc]
    rfl
  have hpass : unlines (if (docs v).isEmpty then [indent ++ "pass".toList] else []) =
      if v.registry.attributes = [] then "    pass\n".toList else [] := by
    rw [docs, List.isEmpty_map]
    simp only [List.isEmpty_iff]
    split <;> rfl
  have hopening : opening version p =
      unlines [("# " ++ header).toList, ("# " ++ versionLine version).toList, []]
        ++ unlines [("class " ++ p.className ++ ":").toList] :=
    unlines_append [("# " ++ header).toList, ("# " ++ versionLine version).toList, []] _
  rw [emit, lines, classLines, classBody, mapping, hopening, ← hpass, ← hblocks]
  simp only [unlines_append, List.append_assoc]
  rfl

theorem replacements_docs (v : ValidRegistry) :
    replacements (docs v) = v.registry.attributes.filterMap fun a =>
      a.replacement?.map fun new => (a.key, new) := by
  rw [replacements, docs, List.filterMap_map]
  congr 1
  funext a
  rw [Function.comp_apply, Doc.ofAttribute, Option.map_map]
  rfl

theorem mem_replacements {key new : String} :
    (key, new) ∈ replacements (docs v) ↔
      ∃ a ∈ v.registry.attributes, a.key = key ∧ a.isDeprecated ∧ a.deprecatedBy = some new := by
  rw [replacements_docs, List.mem_filterMap]
  refine exists_congr fun a => and_congr_right fun _ => ?_
  by_cases hdep : a.isDeprecated = true <;> simp [Attribute.replacement?, hdep, and_comm]

/-- Every deprecated key has an entry, since all of them have replacements. -/
theorem map_fst_replacements (hwf : v.registry.WellFormed) :
    (replacements (docs v)).map Prod.fst =
      (v.registry.attributes.filter Attribute.isDeprecated).map Attribute.key := by
  rw [replacements_docs, List.map_filterMap, ← List.filterMap_eq_filter, List.map_filterMap]
  refine List.filterMap_congr fun a ha => ?_
  have hsome := hwf.isSome_replacement ha
  cases hreplacement : a.replacement? with
  | none =>
    rw [hreplacement] at hsome
    simp [← hsome]
  | some new =>
    rw [hreplacement] at hsome
    simp [Option.guard, ← hsome]

/-- **Registry text never leaks out of the documentation strings of a Python module.** Whatever the
texts of a validated registry are, its module documents it. -/
theorem documents_of_validate (h : r.validate prior strict = .ok v) : Documents v := by
  have hwf := Registry.wellFormed_of_validate h
  have hkey : ∀ a ∈ v.registry.attributes, Key.WellFormed a.key.toList :=
    fun a ha => (hwf.attributes a ha).key
  constructor
  case attributes => exact fun a ha => documented (hkey a ha)
  case keys =>
    have hordered := v.registry.ordered
    rw [Registry.attributes, List.map_map]
    exact hordered
  case code => exact codeLines_classBody hkey
  case replacements =>
    refine ⟨replacements (docs v), readDictionary_unlines ?_, map_fst_replacements hwf,
      fun _ _ => mem_replacements⟩
    rintro ⟨key, new⟩ hmem
    rw [replacements_docs, List.mem_filterMap] at hmem
    obtain ⟨a, ha, hmem⟩ := hmem
    obtain ⟨new', hnew, heq⟩ := Option.map_eq_some_iff.mp hmem
    cases heq
    exact ⟨hkey a ha, hwf.key_of_replacement ha hnew⟩
  case file => exact emit_docs v v.registry.version

/-- Two attributes whose texts try to end their strings: with runs of quotes, with quotes behind
backslashes, and with quotes and backslashes at the ends of lines. -/
private def quoting : Registry :=
  { version := .release 1 0 0
    entries :=
      [⟨{ (Attribute.new "host.id" (.primitive (.scalar .string)) "\"\"\"\"\"\n\n  The \\\"\"\" host\\"
            [.text "a\"\"\"", .text "\\"]).withNotes "One \"\"\n\"\"\" two\n\n\\\\\" \"\"\"\"" with
          constraints := [⟨["metric"], [], some "\"\"\"\n\"\"\""⟩] }, []⟩,
        ⟨(Attribute.new "host.name" (.primitive (.scalar .string)) "\"\"\"" [.text "\"\"\""]).deprecatedInFavorOf
          "host.id", []⟩]
    ordered := by decide }

/-- The strings of texts that try to end them hold. -/
theorem documents_quoting : ∃ v, quoting.validate [] false = .ok v ∧ Documents v := by
  have hown : ∀ a ∈ quoting.attributes, ∀ f ∈ a.ownFindings, f.isError = false := by
    decide
  have hrule : ∀ a ∈ quoting.attributes, quoting.FollowsReplacementRule a := by
    decide
  have hwf : quoting.WellFormed :=
    ⟨fun a ha => Attribute.noErrors_ownFindings.mp (hown a ha), hrule, by decide⟩
  obtain ⟨v, hv⟩ := hwf.exists_validate
  exact ⟨v, hv, documents_of_validate hv⟩

end AttributeRegistry.Codegen.Python
