import AttributeRegistry.Codegen.Artifact
import AttributeRegistry.Proofs.Codegen.Key
import AttributeRegistry.Proofs.Validation.Complete

/-!
# What stands outside of comments in a Rust module

Behind its two header lines a module should hold comment lines, empty lines, marks of deprecated
constants and the declarations of the constants, and nothing else (`Contained`). Briefs, notes and
examples never break out of their comment lines. A constraint is put behind a dash as it is, so the
lines of its sentence after the first one do: the module is contained iff each of them happens to be
harmless (`contained_iff`).
-/

namespace AttributeRegistry.Codegen.Rust

open Text

/-! ## Lines of a module -/

/-- An empty line, a comment line, or the mark of a deprecated constant. -/
def Harmless (line : List Char) : Prop :=
  line = [] ∨ "///".toList <+: line ∨
    ∃ note : List Char, line = "#[deprecated(note = ".toList ++ note ++ ")]".toList

/-- The line that declares a constant for a key. -/
def declarationOf (name key : String) : List Char :=
  ("pub const " ++ name ++ ": &str = \"" ++ key ++ "\";").toList

/-- Whether a line begins like a declaration. -/
def startsDeclaration (line : List Char) : Bool :=
  "pub const ".toList.isPrefixOf line

/-- The lines of the module behind its header. -/
def body (v : ValidRegistry) : List (List Char) :=
  (splitOn '\n' (emit (docs v) v.registry.version)).drop 2

/-- Every line is harmless or declares a constant, and the declarations are those of the attributes,
in the order of their keys. -/
structure Contained (v : ValidRegistry) : Prop where
  lines : ∀ line ∈ body v, Harmless line ∨ ∃ name key, line = declarationOf name key
  declarations : (body v).filter startsDeclaration =
    v.registry.attributes.map fun a => declarationOf (constantName a.key) a.key

/-- The lines of an attribute's constraints after the first of each. -/
def leftover (a : Attribute) : List (List Char) :=
  a.constraints.flatMap fun c => (splitOn '\n' c.describe.toList).tail

theorem startsDeclaration_of_harmless {line : List Char} (h : Harmless line) :
    startsDeclaration line = false := by
  rcases h with rfl | ⟨rest, rfl⟩ | ⟨note, rfl⟩ <;> rfl

theorem startsDeclaration_declarationOf (name key : String) :
    startsDeclaration (declarationOf name key) = true := by
  rw [startsDeclaration, declarationOf, List.isPrefixOf_iff_prefix]
  simp only [String.toList_append, List.append_assoc]
  exact List.prefix_append _ _

theorem filter_startsDeclaration {lines : List (List Char)} (h : ∀ line ∈ lines, Harmless line) :
    lines.filter startsDeclaration = [] := by
  rw [List.filter_eq_nil_iff]
  intro line hline
  rw [startsDeclaration_of_harmless (h line hline)]
  decide

/-! ## Dropping harmless lines -/

/-- `Leaves lines rest`: some harmless lines dropped, `lines` are `rest`. -/
inductive Leaves : List (List Char) → List (List Char) → Prop
  | nil : Leaves [] []
  | drop {line : List Char} {lines rest : List (List Char)} (hline : Harmless line)
    (h : Leaves lines rest) : Leaves (line :: lines) rest
  | keep {line : List Char} {lines rest : List (List Char)} (h : Leaves lines rest) :
    Leaves (line :: lines) (line :: rest)

namespace Leaves

variable {lines lines' rest rest' : List (List Char)}

theorem append (h : Leaves lines rest) (h' : Leaves lines' rest') :
    Leaves (lines ++ lines') (rest ++ rest') := by
  induction h with
  | nil => exact h'
  | drop hline _ ih => exact ih.drop hline
  | keep _ ih => exact ih.keep

theorem refl (lines : List (List Char)) : Leaves lines lines := by
  induction lines with
  | nil => exact .nil
  | cons line lines ih => exact ih.keep

theorem of_harmless (h : ∀ line ∈ lines, Harmless line) : Leaves lines [] := by
  induction lines with
  | nil => exact .nil
  | cons line lines ih =>
    exact (ih fun l hl => h l (List.mem_cons_of_mem _ hl)).drop (h line List.mem_cons_self)

theorem flatMap {α : Type} {as : List α} {f g : α → List (List Char)}
    (h : ∀ a ∈ as, Leaves (f a) (g a)) : Leaves (as.flatMap f) (as.flatMap g) := by
  induction as with
  | nil => exact .nil
  | cons a as ih =>
    rw [List.flatMap_cons, List.flatMap_cons]
    exact (h a List.mem_cons_self).append (ih fun b hb => h b (List.mem_cons_of_mem _ hb))

theorem harmless_or_mem (h : Leaves lines rest) :
    ∀ line ∈ lines, Harmless line ∨ line ∈ rest := by
  induction h with
  | nil => simp
  | drop hline _ ih =>
    rw [List.forall_mem_cons]
    exact ⟨.inl hline, ih⟩
  | keep _ ih =>
    rw [List.forall_mem_cons]
    exact ⟨.inr List.mem_cons_self, fun l hl => (ih l hl).imp_right (List.mem_cons_of_mem _)⟩

theorem subset (h : Leaves lines rest) : rest ⊆ lines := by
  induction h with
  | nil => exact fun _ hl => hl
  | drop _ _ ih => exact fun _ hl => List.mem_cons_of_mem _ (ih hl)
  | keep _ ih => exact List.cons_subset_cons _ ih

/-- No declaration is dropped. -/
theorem filter_eq (h : Leaves lines rest) :
    lines.filter startsDeclaration = rest.filter startsDeclaration := by
  induction h with
  | nil => rfl
  | drop hline _ ih =>
    rw [List.filter_cons, startsDeclaration_of_harmless hline, if_neg Bool.false_ne_true, ih]
  | keep _ ih => rw [List.filter_cons, List.filter_cons, ih]

end Leaves

/-! ## Documentation -/

/-- A comment line on one line. -/
def IsComment (line : List Char) : Prop :=
  "///".toList <+: line ∧ '\n' ∉ line

theorem IsComment.harmless {line : List Char} (h : IsComment line) : Harmless line :=
  .inr (.inl h.1)

theorem isComment_docLine {line : List Char} (h : '\n' ∉ line) : IsComment (docLine line) := by
  unfold docLine
  split
  · exact ⟨List.prefix_rfl, by decide⟩
  · refine ⟨⟨' ' :: trimEnd line, rfl⟩, ?_⟩
    rw [List.mem_append, not_or]
    exact ⟨by decide, fun hmem => h (trimEnd_subset hmem)⟩

theorem isComment_of_mem_docLines {text line : List Char} (h : line ∈ docLines text) :
    IsComment line := by
  obtain ⟨l, hl, rfl⟩ := List.mem_map.mp h
  exact isComment_docLine (newline_not_mem_of_mem_lines hl)

theorem isComment_of_mem_notes {d : Doc} {line : List Char} (h : line ∈ notes d) :
    IsComment line := by
  unfold notes at h
  split at h
  · exact absurd h List.not_mem_nil
  · rcases List.mem_append.mp h with h | h
    · rw [List.mem_pair] at h
      rcases h with rfl | rfl
      · exact ⟨List.prefix_rfl, by decide⟩
      · exact ⟨⟨" ## Notes".toList, rfl⟩, by decide⟩
    · obtain ⟨paragraph, -, h⟩ := List.mem_flatMap.mp h
      rcases List.mem_cons.mp h with rfl | h
      · exact ⟨List.prefix_rfl, by decide⟩
      · obtain ⟨text, -, h⟩ := List.mem_flatMap.mp h
        exact isComment_of_mem_docLines h

/-- Comment lines are cut into themselves, and leave nothing. -/
theorem leaves_of_isComment {lines : List (List Char)} (h : ∀ line ∈ lines, IsComment line) :
    Leaves (lines.flatMap (splitOn '\n')) [] := by
  rw [flatMap_splitOn_of_not_mem fun line hline => (h line hline).2]
  exact .of_harmless fun line hline => (h line hline).harmless

/-! ## Sections -/

/-- An item of a section leaves its lines after the first. -/
theorem leaves_item (item : List Char) :
    Leaves (splitOn '\n' ("/// - ".toList ++ item)) (splitOn '\n' item).tail := by
  obtain ⟨first, hsplit⟩ := splitOn_append_of_not_mem (show '\n' ∉ "/// - ".toList by decide) item
  rw [hsplit]
  exact (Leaves.refl _).drop (.inr (.inl ⟨" - ".toList ++ first, rfl⟩))

theorem leaves_listSection {title : String} (htitle : '\n' ∉ title.toList)
    (items : List (List Char)) :
    Leaves ((listSection title items).flatMap (splitOn '\n'))
      (items.flatMap fun item => (splitOn '\n' item).tail) := by
  unfold listSection
  by_cases hempty : items.isEmpty = true
  · rw [if_pos hempty, List.isEmpty_iff.mp hempty]
    exact .nil
  · rw [if_neg hempty, List.flatMap_append, List.flatMap_map]
    have hhead : Leaves (["///".toList, "/// ## ".toList ++ title.toList, "///".toList].flatMap
        (splitOn '\n')) [] := by
      refine leaves_of_isComment ?_
      simp only [List.forall_mem_cons, List.not_mem_nil, false_implies, implies_true, and_true]
      refine ⟨⟨List.prefix_rfl, by decide⟩, ⟨⟨" ## ".toList ++ title.toList, rfl⟩, ?_⟩,
        ⟨List.prefix_rfl, by decide⟩⟩
      rw [List.mem_append, not_or]
      exact ⟨by decide, htitle⟩
    exact hhead.append (.flatMap fun item _ => leaves_item item)

/-! ## One attribute -/

theorem leaves_examples (a : Attribute) :
    Leaves ((listSection "Examples" ((Doc.ofAttribute a).examples.map fun e =>
      ['\x60'] ++ e.toList ++ ['\x60'])).flatMap (splitOn '\n')) [] := by
  have h := leaves_listSection (show '\n' ∉ "Examples".toList by decide)
    ((Doc.ofAttribute a).examples.map fun e => ['\x60'] ++ e.toList ++ ['\x60'])
  have hnil : (((Doc.ofAttribute a).examples.map fun e => ['\x60'] ++ e.toList ++ ['\x60']).flatMap
      fun item => (splitOn '\n' item).tail) = [] := by
    rw [List.flatMap_eq_nil_iff]
    intro item hitem
    obtain ⟨text, htext, rfl⟩ := List.mem_map.mp hitem
    obtain ⟨e, -, rfl⟩ := List.mem_map.mp htext
    have hplain : '\n' ∉ ['\x60'] ++ e.displayText.toList ++ ['\x60'] := by
      refine Plain.not_mem_newline ?_
      rw [Example.displayText, String.toList_ofList, plain_append, plain_append]
      exact ⟨⟨by decide, plain_display e⟩, by decide⟩
    rw [splitOn_eq_singleton hplain, List.tail_cons]
  rwa [hnil] at h

theorem leaves_constraints (a : Attribute) :
    Leaves ((listSection "Constraints" ((Doc.ofAttribute a).constraints.map String.toList)).flatMap
      (splitOn '\n')) (leftover a) := by
  have h := leaves_listSection (show '\n' ∉ "Constraints".toList by decide)
    ((Doc.ofAttribute a).constraints.map String.toList)
  have hleft : (((Doc.ofAttribute a).constraints.map String.toList).flatMap
      fun item => (splitOn '\n' item).tail) = leftover a := by
    rw [Doc.ofAttribute, List.map_map, List.flatMap_map]
    rfl
  rwa [hleft] at h

/-- The mark of an attribute whose replacement is a key of the grammar is one harmless line. -/
theorem leaves_deprecation {a : Attribute}
    (h : ∀ key, a.replacement? = some key → Key.WellFormed key.toList) :
    Leaves ((deprecation (Doc.ofAttribute a)).flatMap (splitOn '\n')) [] := by
  unfold deprecation Doc.ofAttribute
  cases hkey : a.replacement? with
  | none => exact .nil
  | some key =>
    have hplain := Plain.of_wellFormed (h key hkey)
    have hline : '\n' ∉ ("#[deprecated(note = \"\x7bnote: Replaced by `" ++ key
        ++ "`., reason: renamed, renamed_to: " ++ key ++ "\x7d\")]").toList := by
      refine Plain.not_mem_newline ?_
      simp only [String.toList_append, plain_append]
      exact ⟨⟨⟨⟨by decide, hplain⟩, by decide⟩, hplain⟩, by decide⟩
    simp only [Option.map_some]
    rw [flatMap_splitOn_of_not_mem (List.forall_mem_singleton.mpr hline)]
    refine .of_harmless (List.forall_mem_singleton.mpr (.inr (.inr ?_)))
    refine ⟨("\"\x7bnote: Replaced by `" ++ key ++ "`., reason: renamed, renamed_to: " ++ key
      ++ "\x7d\"").toList, ?_⟩
    simp only [String.toList_append, ← List.append_assoc]
    rw [show "#[deprecated(note = \"\x7bnote: Replaced by `".toList =
        "#[deprecated(note = ".toList ++ "\"\x7bnote: Replaced by `".toList from rfl,
      show "\x7d\")]".toList = "\x7d\"".toList ++ ")]".toList from rfl]
    simp only [List.append_assoc]

/-- A well-formed key is declared as it is. -/
theorem declaration_eq {a : Attribute} (h : Key.WellFormed a.key.toList) :
    declaration (Doc.ofAttribute a) = declarationOf (constantName a.key) a.key := by
  unfold declaration declarationOf Doc.ofAttribute
  simp only [String.toList_append, toList_quoted_of_wellFormed h]
  rw [show ": &str = \"".toList = ": &str = ".toList ++ ['"'] from rfl,
    show "\";".toList = '"' :: ";".toList from rfl]
  simp only [List.append_assoc, List.cons_append, List.nil_append]

theorem splitOn_declaration {a : Attribute} (h : Key.WellFormed a.key.toList) :
    splitOn '\n' (declaration (Doc.ofAttribute a)) = [declarationOf (constantName a.key) a.key] := by
  rw [declaration_eq h]
  refine splitOn_eq_singleton (Plain.not_mem_newline ?_)
  unfold declarationOf
  simp only [String.toList_append, plain_append]
  exact ⟨⟨⟨⟨by decide, plain_constantName h⟩, by decide⟩, Plain.of_wellFormed h⟩, by decide⟩

/-- **An attribute leaves what its constraints leave, and its declaration.** -/
theorem leaves_constant {a : Attribute} (hkey : Key.WellFormed a.key.toList)
    (hreplacement : ∀ key, a.replacement? = some key → Key.WellFormed key.toList) :
    Leaves ((constant (Doc.ofAttribute a)).flatMap (splitOn '\n'))
      (leftover a ++ [declarationOf (constantName a.key) a.key]) := by
  have hbrief : Leaves ((docLines a.brief.toList).flatMap (splitOn '\n')) [] :=
    leaves_of_isComment fun _ => isComment_of_mem_docLines
  have hnotes : Leaves ((notes (Doc.ofAttribute a)).flatMap (splitOn '\n')) [] :=
    leaves_of_isComment fun _ => isComment_of_mem_notes
  have hdeclaration : Leaves ([declaration (Doc.ofAttribute a)].flatMap (splitOn '\n'))
      [declarationOf (constantName a.key) a.key] := by
    rw [List.flatMap_singleton, splitOn_declaration hkey]
    exact .refl _
  unfold constant
  rw [List.flatMap_append, List.flatMap_append, List.flatMap_append, List.flatMap_append,
    List.flatMap_append]
  have hall := ((((hbrief.append hnotes).append (leaves_constraints a)).append
    (leaves_examples a)).append (leaves_deprecation hreplacement)).append hdeclaration
  rwa [List.nil_append, List.nil_append, List.append_nil, List.append_nil] at hall

/-! ## The module -/

variable {r : Registry} {prior : Report} {strict : Bool} {v : ValidRegistry}

/-- Behind two lines stand the lines of the other texts. -/
theorem drop_splitOn_unlines {first second : List Char} (hfirst : '\n' ∉ first)
    (hsecond : '\n' ∉ second) (texts : List (List Char)) :
    (splitOn '\n' (unlines ([first, second] ++ texts))).drop 2 =
      texts.flatMap (splitOn '\n') ++ [[]] := by
  rw [splitOn_unlines, List.flatMap_append, List.flatMap_cons, List.flatMap_singleton,
    splitOn_eq_singleton hfirst, splitOn_eq_singleton hsecond]
  rfl

theorem body_eq (v : ValidRegistry) :
    body v = (docs v).flatMap (fun d => [] :: (constant d).flatMap (splitOn '\n')) ++ [[]] := by
  have hheader : Plain ("// " ++ header).toList := by decide
  have hversion : Plain ("// " ++ versionLine v.registry.version).toList := by
    unfold versionLine
    simp only [String.toList_append, plain_append]
    exact ⟨by decide, by decide, plain_versionText _⟩
  have hattribute : ∀ d, ([] :: constant d).flatMap (splitOn '\n') =
      [] :: (constant d).flatMap (splitOn '\n') := by
    intro d
    rw [List.flatMap_cons]
    rfl
  unfold body emit lines
  rw [drop_splitOn_unlines hheader.not_mem_newline hversion.not_mem_newline, List.flatMap_assoc]
  simp only [hattribute]

theorem leaves_body (hwf : v.registry.WellFormed) :
    Leaves (body v) (v.registry.attributes.flatMap fun a =>
      leftover a ++ [declarationOf (constantName a.key) a.key]) := by
  have hattributes : Leaves
      (v.registry.attributes.flatMap fun a =>
        [] :: (constant (Doc.ofAttribute a)).flatMap (splitOn '\n'))
      (v.registry.attributes.flatMap fun a =>
        leftover a ++ [declarationOf (constantName a.key) a.key]) := by
    refine .flatMap fun a ha => .drop (.inl rfl) ?_
    exact leaves_constant (hwf.attributes a ha).key fun _ => hwf.key_of_replacement ha
  have hlast : Leaves [([] : List Char)] [] := .drop (.inl rfl) .nil
  rw [body_eq, docs, List.flatMap_map]
  have hall := hattributes.append hlast
  rwa [List.append_nil] at hall

/-- If every element adds one to a list, and the list is no longer than that, nothing else is
added. -/
theorem eq_nil_of_flatMap_eq_map {α β : Type} {f : α → List β} {g : α → β} {as : List α}
    (h : (as.flatMap fun a => f a ++ [g a]) = as.map g) : ∀ a ∈ as, f a = [] := by
  have hle : ∀ bs : List α, bs.length ≤ (bs.flatMap fun a => f a ++ [g a]).length := by
    intro bs
    induction bs with
    | nil => exact Nat.le_refl 0
    | cons b bs ih =>
      rw [List.flatMap_cons, List.length_append, List.length_append, List.length_cons,
        List.length_singleton]
      omega
  induction as with
  | nil => simp
  | cons a as ih =>
    have hlength := congrArg List.length h
    rw [List.flatMap_cons, List.length_append, List.length_append, List.length_singleton,
      List.length_map, List.length_cons] at hlength
    have hrest := hle as
    have hnil : f a = [] := List.eq_nil_of_length_eq_zero (by omega)
    rw [List.flatMap_cons, hnil, List.nil_append, List.singleton_append, List.map_cons,
      List.cons.injEq] at h
    rw [List.forall_mem_cons]
    exact ⟨hnil, ih h.2⟩

/-- **A module is contained iff the further lines of all constraints are harmless.** -/
theorem contained_iff (h : r.validate prior strict = .ok v) :
    Contained v ↔ ∀ a ∈ v.registry.attributes, ∀ c ∈ a.constraints,
      ∀ line ∈ (splitOn '\n' c.describe.toList).tail, Harmless line := by
  have hleaves := leaves_body (Registry.wellFormed_of_validate h)
  have hfilter : (body v).filter startsDeclaration = v.registry.attributes.flatMap fun a =>
      (leftover a).filter startsDeclaration ++ [declarationOf (constantName a.key) a.key] := by
    rw [hleaves.filter_eq, List.filter_flatMap]
    congr 1
    funext a
    rw [List.filter_append, List.filter_cons, startsDeclaration_declarationOf]
    rfl
  have hleftover : ∀ a, (∀ line ∈ leftover a, Harmless line) ↔
      ∀ c ∈ a.constraints, ∀ line ∈ (splitOn '\n' c.describe.toList).tail, Harmless line :=
    fun a => List.forall_mem_flatMap
  simp only [← hleftover]
  constructor
  · intro hc a ha line hline
    -- a leftover line that declares a constant would be one declaration too many
    have hnil := eq_nil_of_flatMap_eq_map (hfilter.symm.trans hc.declarations) a ha
    have hmem : line ∈ body v := by
      refine hleaves.subset (List.mem_flatMap.mpr ⟨a, ha, ?_⟩)
      exact List.mem_append_left _ hline
    rcases hc.lines line hmem with hharmless | ⟨name, key, rfl⟩
    · exact hharmless
    · rw [List.filter_eq_nil_iff] at hnil
      exact absurd (startsDeclaration_declarationOf name key) (hnil _ hline)
  · intro hharmless
    constructor
    · intro line hline
      rcases hleaves.harmless_or_mem line hline with hline | hline
      · exact .inl hline
      · obtain ⟨a, ha, hline⟩ := List.mem_flatMap.mp hline
        rcases List.mem_append.mp hline with hline | hline
        · exact .inl (hharmless a ha line hline)
        · exact .inr ⟨_, _, List.mem_singleton.mp hline⟩
    · rw [hfilter, List.map_eq_flatMap]
      refine congrArg List.flatten (List.map_congr_left fun a ha => ?_)
      rw [filter_startsDeclaration (hharmless a ha), List.nil_append]

/-- A registry with an attribute whose only constraint has a reason. -/
private def reasoned (reason : String) : Registry :=
  { version := .release 1 0 0
    entries := [⟨{ Attribute.new "host.id" (.primitive (.scalar .string)) "The host." [.text "a1"] with
      constraints := [⟨["metric"], [], some reason⟩] }, []⟩]
    ordered := by simp }

/-- A reason on one line stays in its comment. -/
theorem contained_reasoned :
    ∃ v, (reasoned "High cardinality.").validate [] false = .ok v ∧ Contained v := by
  obtain ⟨v, hv⟩ := Registry.exists_validate_iff.mpr
    (show ((reasoned "High cardinality.").allFindings [] false).hasErrors = false by decide +kernel)
  have htail : ∀ a ∈ (reasoned "High cardinality.").attributes, ∀ c ∈ a.constraints,
      (splitOn '\n' c.describe.toList).tail = [] := by
    decide
  refine ⟨v, hv, (contained_iff hv).mpr ?_⟩
  rw [Registry.registry_of_validate hv]
  intro a ha c hc line hline
  rw [htail a ha c hc] at hline
  exact absurd hline List.not_mem_nil

theorem Harmless.head? {line : List Char} (h : Harmless line) :
    line = [] ∨ line.head? = some '/' ∨ line.head? = some '#' := by
  rcases h with rfl | ⟨rest, rfl⟩ | ⟨note, rfl⟩
  · exact .inl rfl
  · exact .inr (.inl rfl)
  · exact .inr (.inr rfl)

/-- **A reason on two lines puts its second line into the module.** -/
theorem not_contained_reasoned :
    ∃ v, (reasoned "High cardinality\nuse it sparingly").validate [] false = .ok v ∧ ¬ Contained v := by
  have hnoErrors : ((reasoned "High cardinality\nuse it sparingly").allFindings [] false).hasErrors =
      false := by
    decide +kernel
  refine ⟨_, Registry.validate_eq_ok_iff.mpr ⟨hnoErrors, rfl⟩, ?_⟩
  intro hc
  have hmem : "use it sparingly.".toList ∈ body ⟨reasoned "High cardinality\nuse it sparingly",
      (reasoned "High cardinality\nuse it sparingly").allFindings [] false⟩ := by
    decide +kernel
  rcases hc.lines _ hmem with h | ⟨name, key, h⟩
  · exact absurd h.head? (by decide)
  · have hstarts := startsDeclaration_declarationOf name key
    rw [← h] at hstarts
    exact absurd hstarts (by decide)

end AttributeRegistry.Codegen.Rust
