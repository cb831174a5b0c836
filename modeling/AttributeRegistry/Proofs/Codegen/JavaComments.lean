import AttributeRegistry.Codegen.Artifact
import AttributeRegistry.Codegen.Java
import AttributeRegistry.Proofs.Codegen.Key
import AttributeRegistry.Proofs.Text.Lines
import AttributeRegistry.Proofs.Validation.Complete
import Mathlib.Data.List.Chain

/-!
# Comments in a Java module

What a registry says about an attribute stands in one comment before the declaration of its constant.
Escaping leaves no backslash and nothing that ends a comment (`sealed_escape`), and neither do the tags
around code or the lines of the comment bring two characters together that would end it
(`sealed_prose`, `sealed_comment`).

Main statement: every attribute of a validated registry is documented in a comment that ends where the
emitter ends it, so that without comments only the code is left, and the file holds these blocks in the
order of their keys (`enclosed_constant`).
-/

namespace AttributeRegistry.Codegen.Java

open Text

/-! ## Comments -/

/-- A text without its comments; the flag says whether it begins inside of one. -/
def uncommented : Bool → List Char → List Char
  | _, [] => []
  | false, '/' :: '*' :: cs => uncommented true cs
  | false, c :: cs => c :: uncommented false cs
  | true, '*' :: '/' :: cs => uncommented false cs
  | true, _ :: cs => uncommented true cs

/-- Whether two neighbours do not end a comment. -/
def Harmless (c d : Char) : Prop :=
  ¬ (c = '*' ∧ d = '/')

instance (c d : Char) : Decidable (Harmless c d) :=
  inferInstanceAs (Decidable (¬ (c = '*' ∧ d = '/')))

/-- A text that stays in a comment: no backslash, and nothing that ends the comment. -/
structure Sealed (cs : List Char) : Prop where
  backslash : '\\' ∉ cs
  chain : cs.IsChain Harmless

instance (cs : List Char) : Decidable (Sealed cs) :=
  decidable_of_iff ('\\' ∉ cs ∧ cs.IsChain Harmless)
    ⟨fun h => ⟨h.1, h.2⟩, fun h => ⟨h.1, h.2⟩⟩

theorem uncommented_of_not_mem {cs : List Char} (h : '/' ∉ cs) : uncommented false cs = cs := by
  induction cs with
  | nil => rfl
  | cons c cs ih =>
    rw [List.mem_cons, not_or] at h
    rw [uncommented, ih h.2]
    rintro _ rfl
    exact absurd rfl h.1

theorem uncommented_append_of_not_mem {as : List Char} (h : '/' ∉ as) (bs : List Char) :
    uncommented false (as ++ bs) = as ++ uncommented false bs := by
  induction as with
  | nil => rfl
  | cons a as ih =>
    rw [List.mem_cons, not_or] at h
    rw [List.cons_append, uncommented, ih h.2, List.cons_append]
    rintro _ rfl
    exact absurd rfl h.1

/-- A comment ends at the first mark that ends it. -/
theorem uncommented_append_end {cs : List Char} (h : (cs ++ ['*']).IsChain Harmless)
    (rest : List Char) : uncommented true (cs ++ "*/".toList ++ rest) = uncommented false rest := by
  induction cs with
  | nil => rfl
  | cons c cs ih =>
    rw [List.cons_append, List.isChain_cons] at h
    rw [List.cons_append, List.cons_append, uncommented, ih h.2]
    -- the mark would already stand in `c :: cs`
    rintro rest' rfl heq
    cases cs with
    | nil => cases heq
    | cons d cs =>
      cases heq
      exact h.1 '/' rfl ⟨rfl, rfl⟩

namespace Sealed

variable {as bs : List Char}

theorem nil : Sealed [] := by
  decide

theorem append (ha : Sealed as) (hb : Sealed bs)
    (h : ∀ c ∈ as.getLast?, ∀ d ∈ bs.head?, Harmless c d) : Sealed (as ++ bs) where
  backslash := by
    rw [List.mem_append, not_or]
    exact ⟨ha.backslash, hb.backslash⟩
  chain := List.isChain_append.mpr ⟨ha.chain, hb.chain, h⟩

/-- Behind a text that does not end with an asterisk everything may follow. -/
theorem append_of_last (ha : Sealed as) (hb : Sealed bs) (h : as.getLast? ≠ some '*') :
    Sealed (as ++ bs) :=
  ha.append hb fun _ hc _ _ hcd => h (hcd.1 ▸ hc)

/-- A text that does not begin with a slash may follow everything. -/
theorem append_of_head (ha : Sealed as) (hb : Sealed bs) (h : bs.head? ≠ some '/') :
    Sealed (as ++ bs) :=
  ha.append hb fun _ _ _ hd hcd => h (hcd.2 ▸ hd)

theorem of_within (hb : Sealed bs) (h : as <:+: bs) : Sealed as :=
  ⟨fun hmem => hb.backslash (h.subset hmem), hb.chain.infix h⟩

/-- Nothing in a sealed text ends a comment. -/
theorem not_infix (h : Sealed as) : ¬ "*/".toList <:+: as := fun hinfix =>
  absurd (h.of_within hinfix).chain (by decide)

theorem flatMap {α : Type} {xs : List α} {f : α → List Char} (h : ∀ x ∈ xs, Sealed (f x))
    (hlast : ∀ x ∈ xs, (f x).getLast? ≠ some '*') : Sealed (xs.flatMap f) := by
  induction xs with
  | nil => exact nil
  | cons x xs ih =>
    rw [List.flatMap_cons]
    exact (h x List.mem_cons_self).append_of_last
      (ih (fun y hy => h y (List.mem_cons_of_mem _ hy)) fun y hy => hlast y (List.mem_cons_of_mem _ hy))
      (hlast x List.mem_cons_self)

theorem unlines {lines : List (List Char)} (h : ∀ line ∈ lines, Sealed line) :
    Sealed (Text.unlines lines) := by
  refine flatMap (fun line hline => ?_) fun line _ => ?_
  · exact (h line hline).append_of_head (by decide) (by decide)
  · rw [List.getLast?_concat]
    decide

end Sealed

/-! ## Escaped text -/

/-- Exchanging what ends a comment leaves the beginning of a text, and nothing that ends a comment. -/
theorem isChain_replaceAll (cs : List Char) :
    (replaceAll '*' ['/'] "*&#47;".toList cs).head? = cs.head? ∧
      (replaceAll '*' ['/'] "*&#47;".toList cs).IsChain Harmless := by
  induction cs using replaceAll.induct '*' ['/'] with
  | case1 =>
    rw [replaceAll_nil]
    exact ⟨rfl, .nil⟩
  | case2 rest after hdrop ih =>
    rw [replaceAll_of_some hdrop]
    refine ⟨rfl, List.isChain_append.mpr ⟨by decide, ih.2, ?_⟩⟩
    rintro c hc d - ⟨rfl, -⟩
    exact absurd hc (by decide)
  | case3 rest hdrop ih =>
    rw [replaceAll_of_none hdrop]
    refine ⟨rfl, List.isChain_cons.mpr ⟨?_, ih.2⟩⟩
    rintro d hd ⟨-, rfl⟩
    -- a slash behind the asterisk would have been exchanged
    rw [ih.1] at hd
    obtain ⟨rest', rfl⟩ := List.head?_eq_some_iff.mp hd
    exact absurd hdrop (by simp [dropBeginning?])
  | case4 c rest hc ih =>
    rw [replaceAll_of_ne hc]
    exact ⟨rfl, List.isChain_cons.mpr ⟨fun _ _ h => hc h.1, ih.2⟩⟩

theorem backslash_not_mem_escapeChar (c : Char) : '\\' ∉ escapeChar c := by
  unfold escapeChar
  split
  · decide
  split
  · decide
  split
  · decide
  split
  · decide
  · next h => exact fun hmem => h (List.mem_singleton.mp hmem).symm

/-- **Escaped text stays in a comment.** -/
theorem sealed_escape (text : List Char) : Sealed (escape text) where
  backslash hmem := by
    rcases mem_replaceAll hmem with hmem | hmem
    · exact absurd hmem (by decide)
    · obtain ⟨c, -, hc⟩ := List.mem_flatMap.mp hmem
      exact backslash_not_mem_escapeChar c hc
  chain := (isChain_replaceAll _).2

/-! ## Code in prose -/

theorem head?_spans_ne (opening : Bool) (parts : List (List Char)) :
    (spans opening parts).head? ≠ some '/' := by
  unfold spans
  split <;> simp

/-- Neither tags nor a backquote between parts end a comment. -/
theorem sealed_spans {opening : Bool} {parts : List (List Char)}
    (h : ∀ part ∈ parts, Sealed part) : Sealed (spans opening parts) := by
  induction parts generalizing opening with
  | nil => rw [spans]; exact .nil
  | cons part parts ih =>
    have hpart := h part List.mem_cons_self
    have hrest : ∀ o, Sealed (spans o parts) := fun _ => ih fun p hp => h p (List.mem_cons_of_mem _ hp)
    have htagged : ∀ tag : List Char, Sealed tag → tag.getLast? ≠ some '*' → ∀ o,
        Sealed (tag ++ part ++ spans o parts) := fun tag htag hlast o =>
      (htag.append_of_last hpart hlast).append_of_head (hrest o) (head?_spans_ne o parts)
    cases opening with
    | false =>
      rw [spans]
      exact htagged "</c>".toList (by decide) (by decide) true
    | true =>
      cases parts with
      | nil => exact (show Sealed ['\x60'] by decide).append_of_last hpart (by decide)
      | cons next parts => exact htagged "<c>".toList (by decide) (by decide) false

/-- **Prose stays in a comment**, whatever its code is cut out of. -/
theorem sealed_prose (text : List Char) : Sealed (prose text) := by
  have hparts : ∀ part ∈ splitOn '\x60' (escape (trim text)), Sealed part :=
    fun part hpart => (sealed_escape _).of_within (infix_of_mem_splitOn hpart)
  unfold prose
  split
  · exact .nil
  · next part parts heq =>
    rw [heq, List.forall_mem_cons] at hparts
    exact hparts.1.append_of_head (sealed_spans hparts.2) (head?_spans_ne true parts)

/-! ## The lines of a comment -/

theorem getLast?_element (name : String) (text : List Char) :
    (element name text).getLast? = some '>' := by
  have hclose : ("</" ++ name ++ ">").toList = ("</" ++ name).toList ++ ['>'] := String.toList_append
  rw [element, hclose, ← List.append_assoc, List.getLast?_concat]

theorem sealed_element {name : String} (hname : Sealed name.toList) {text : List Char}
    (htext : Sealed text) : Sealed (element name text) := by
  have htag : ∀ start : String, Sealed start.toList → start.toList.getLast? ≠ some '*' →
      Sealed (start ++ name ++ ">").toList := by
    intro start hstart hlast
    rw [String.toList_append, String.toList_append]
    exact (hstart.append_of_last hname hlast).append_of_head (by decide) (by decide)
  have hopen : ("<" ++ name ++ ">").toList.getLast? ≠ some '*' := by
    rw [String.toList_append, show ">".toList = ['>'] from rfl, List.getLast?_concat]
    decide
  have hclose : ("</" ++ name ++ ">").toList.head? ≠ some '/' := by
    rw [String.toList_append, String.toList_append]
    exact fun h => absurd h (by simp)
  exact ((htag "<" (by decide) (by decide)).append_of_last htext hopen).append_of_head
    (htag "</" (by decide) (by decide)) hclose

theorem sealed_notes (d : Doc) : ∀ line ∈ notes d, Sealed line := by
  unfold notes
  split
  · simp
  · rw [List.forall_mem_singleton]
    refine Sealed.append_of_last (sealed_element (by decide) (by decide)) (Sealed.flatMap ?_ ?_) ?_
    · exact fun _ _ => sealed_element (by decide) (sealed_prose _)
    · intro paragraph _
      rw [getLast?_element]
      decide
    · rw [getLast?_element]
      decide

theorem sealed_listSection {title : String} (htitle : Sealed title.toList) {items : List (List Char)}
    (h : ∀ item ∈ items, Sealed item) : ∀ line ∈ listSection title items, Sealed line := by
  unfold listSection
  split
  · simp
  · simp only [List.forall_mem_append, List.forall_mem_cons, List.forall_mem_map, List.not_mem_nil,
      false_implies, implies_true, and_true]
    refine ⟨⟨⟨sealed_element (by decide) htitle, by decide⟩, fun item hitem => ?_⟩, by decide⟩
    exact Sealed.append_of_last (by decide) (sealed_element (by decide) (h item hitem)) (by decide)

/-- The characters of a well-formed key's constant are none that a comment could end with. -/
theorem not_mem_constantName {key : String} (h : Key.WellFormed key.toList) {c : Char}
    (hc : c ∈ (constantName key).toList) : c ≠ '\\' ∧ c ≠ '*' ∧ c ≠ '/' := by
  refine ⟨?_, ?_, ?_⟩ <;> rintro rfl <;> exact absurd (h.mem_constantName hc) (by decide)

theorem sealed_constantName {key : String} (h : Key.WellFormed key.toList) :
    Sealed (constantName key).toList where
  backslash hmem := (not_mem_constantName h hmem).1 rfl
  chain := by
    refine (List.pairwise_iff_forall_sublist.mpr ?_).isChain
    intro c d hsub hcd
    exact (not_mem_constantName h (hsub.subset List.mem_cons_self)).2.1 hcd.1

theorem sealed_deprecation {a : Attribute}
    (h : ∀ key, a.replacement? = some key → Key.WellFormed key.toList) :
    ∀ line ∈ deprecation (Doc.ofAttribute a), Sealed line := by
  unfold deprecation Doc.ofAttribute
  cases hkey : a.replacement? with
  | none => simp
  | some key =>
    simp only [Option.map_some]
    rw [List.forall_mem_singleton, String.toList_append, String.toList_append]
    exact (Sealed.append_of_last (by decide) (sealed_constantName (h key hkey))
      (by decide)).append_of_head (by decide) (by decide)

/-- **No line of a comment ends it.** -/
theorem sealed_comment {a : Attribute}
    (h : ∀ key, a.replacement? = some key → Key.WellFormed key.toList) :
    ∀ line ∈ comment (Doc.ofAttribute a), Sealed line := by
  unfold comment
  simp only [List.forall_mem_append, List.forall_mem_singleton]
  refine ⟨⟨⟨⟨?brief, sealed_notes _⟩, ?constraints⟩, ?examples⟩, sealed_deprecation h⟩
  case brief => exact sealed_element (by decide) (sealed_prose _)
  case constraints =>
    refine sealed_listSection (by decide) ?_
    rw [List.forall_mem_map]
    exact fun _ _ => sealed_prose _
  case examples =>
    refine sealed_listSection (by decide) ?_
    rw [List.forall_mem_map]
    exact fun _ _ => sealed_element (by decide) (sealed_escape _)

/-! ## The block of an attribute -/

/-- The code for an attribute. -/
def code (a : Attribute) : List Char :=
  unlines ((if a.isDeprecated then ["    @Deprecated".toList] else [])
    ++ [("    public static final String " ++ constantName a.key ++ " = \"" ++ a.key ++ "\";").toList])

/-- A block is one comment with the attribute's code behind it. -/
structure Enclosed (a : Attribute) (block : List Char) : Prop where
  /-- Nothing ends the comment before its last line. -/
  comment : ∃ text : List Char,
    block = "    /**\n".toList ++ text ++ "     */\n".toList ++ code a ∧ '\\' ∉ text ∧
      ¬ "*/".toList <:+: "/**\n".toList ++ text ++ "     *".toList
  /-- Without its comment the block is the code. -/
  code : uncommented false block = "    \n".toList ++ code a

/-- The lines of the comment of an attribute in the block. -/
def commentText (a : Attribute) : List Char :=
  unlines ((comment (Doc.ofAttribute a)).map docLine)

theorem unlines_constant {a : Attribute} (h : a.replacement?.isSome = a.isDeprecated) :
    unlines (constant (Doc.ofAttribute a)) =
      "    /**\n".toList ++ commentText a ++ "     */\n".toList ++ code a := by
  have hreplacement : (Doc.ofAttribute a).replacement.isSome = a.isDeprecated := by
    rw [← h, Doc.ofAttribute, Option.isSome_map]
  have hopen : unlines ["    /**".toList] = "    /**\n".toList := rfl
  have hclose : unlines ["     */".toList] = "     */\n".toList := rfl
  rw [constant, hreplacement, List.append_assoc, unlines_append, unlines_append, unlines_append, hopen,
    hclose]
  rfl

theorem sealed_commentText {a : Attribute}
    (h : ∀ key, a.replacement? = some key → Key.WellFormed key.toList) : Sealed (commentText a) := by
  refine Sealed.unlines ?_
  rw [List.forall_mem_map]
  exact fun line hline => Sealed.append_of_last (by decide) (sealed_comment h line hline) (by decide)

theorem slash_not_mem_code {a : Attribute} (h : Key.WellFormed a.key.toList) : '/' ∉ code a := by
  have hmark : ∀ b : Bool, '/' ∉ unlines (if b then ["    @Deprecated".toList] else []) := by
    decide
  have hname : '/' ∉ (constantName a.key).toList := fun hmem => (not_mem_constantName h hmem).2.2 rfl
  have hkey : '/' ∉ a.key.toList := fun hmem => absurd (h.mem hmem) (by decide)
  rw [code, unlines_append, List.mem_append, not_or, unlines_cons]
  refine ⟨hmark _, ?_⟩
  simp only [String.toList_append, List.mem_append, List.mem_cons, not_or]
  exact ⟨⟨⟨⟨⟨by decide, hname⟩, by decide⟩, hkey⟩, by decide⟩, by decide, by decide⟩

theorem enclosed {a : Attribute} (hkey : Key.WellFormed a.key.toList)
    (hwf : ∀ key, a.replacement? = some key → Key.WellFormed key.toList)
    (hisSome : a.replacement?.isSome = a.isDeprecated) :
    Enclosed a (unlines (constant (Doc.ofAttribute a))) := by
  have htext := sealed_commentText hwf
  have hall : Sealed ("/**\n".toList ++ commentText a ++ "     *".toList) :=
    (Sealed.append_of_last (by decide) htext (by decide)).append_of_head (by decide) (by decide)
  rw [unlines_constant hisSome]
  refine ⟨⟨commentText a, rfl, htext.backslash, hall.not_infix⟩, ?_⟩
  -- the comment is open behind the first two characters of `hall`'s text
  have hinner : (("*\n".toList ++ commentText a ++ "     ".toList) ++ ['*']).IsChain Harmless :=
    (hall.of_within ⟨"/*".toList, [], by simp⟩).chain
  have hblock : "    /**\n".toList ++ commentText a ++ "     */\n".toList ++ code a =
      "    ".toList ++ ("/*".toList ++
        (("*\n".toList ++ commentText a ++ "     ".toList) ++ "*/".toList ++ ("\n".toList ++ code a))) := by
    simp
  have hopen : ∀ cs, uncommented false ("/*".toList ++ cs) = uncommented true cs := fun _ => rfl
  have hcode : uncommented false ("\n".toList ++ code a) = "\n".toList ++ code a := by
    rw [uncommented_append_of_not_mem (by decide), uncommented_of_not_mem (slash_not_mem_code hkey)]
  rw [hblock, uncommented_append_of_not_mem (by decide), hopen, uncommented_append_end hinner, hcode,
    ← List.append_assoc]
  rfl

/-! ## The module -/

variable {r : Registry} {prior : Report} {strict : Bool} {v : ValidRegistry}

/-- The lines in front of the blocks. -/
def opening (version : Version) (p : JavaProfile) : List Char :=
  unlines [("// " ++ header).toList, ("// " ++ versionLine version).toList, [],
    ("package " ++ p.package ++ ";").toList, [], ("public final class " ++ p.className ++ " \x7b").toList]

/-- The lines behind the blocks. -/
def closing (p : JavaProfile) : List Char :=
  unlines [("    private " ++ p.className ++ "() \x7b\x7d").toList, "\x7d".toList]

theorem emit_docs (v : ValidRegistry) (version : Version) (p : JavaProfile) :
    emit (docs v) version p = opening version p
      ++ (v.registry.attributes.flatMap fun a => unlines (constant (Doc.ofAttribute a)) ++ ['\n'])
      ++ closing p := by
  have hblocks : ∀ as : List Attribute,
      unlines ((as.map Doc.ofAttribute).flatMap fun d => constant d ++ [[]]) =
        as.flatMap fun a => unlines (constant (Doc.ofAttribute a)) ++ ['\n'] := by
    intro as
    rw [List.flatMap_map, unlines, List.flatMap_assoc]
    simp only [List.flatMap_append]
    rfl
  rw [emit, lines, unlines_append, unlines_append, docs, hblocks]
  rfl

/-- **Registry text never leaks out of the comments of a Java module.** Every attribute of a validated
registry has a block: one comment, which holds no backslash and ends where it is meant to, and the code
behind it. The file holds the blocks in the order of the attributes' keys. -/
theorem enclosed_constant (h : r.validate prior strict = .ok v) :
    (∀ a ∈ v.registry.attributes, Enclosed a (unlines (constant (Doc.ofAttribute a)))) ∧
      (v.registry.attributes.map Attribute.key).Pairwise (fun a b => compare a b = .lt) ∧
      ∀ p : JavaProfile, emit (docs v) v.registry.version p = opening v.registry.version p
        ++ (v.registry.attributes.flatMap fun a => unlines (constant (Doc.ofAttribute a)) ++ ['\n'])
        ++ closing p := by
  have hwf := Registry.wellFormed_of_validate h
  refine ⟨fun a ha => ?_, ?_, emit_docs v v.registry.version⟩
  · exact enclosed (hwf.attributes a ha).key (fun _ => hwf.key_of_replacement ha)
      (hwf.isSome_replacement ha)
  · have hordered := v.registry.ordered
    rw [Registry.attributes, List.map_map]
    exact hordered

/-- Two attributes whose texts try to end their comments. -/
private def hostile : Registry :=
  { version := .release 1 0 0
    entries :=
      [⟨(Attribute.new "host.id" (.primitive (.scalar .string)) "The `host*`/ */ \\u002a/"
          [.text "**/ \\u002f"]).withNotes "One *\n/ two **/ `*/`", []⟩,
        ⟨(Attribute.new "host.name" (.primitive (.scalar .string)) "*/" [.text "*/"]).deprecatedInFavorOf
          "host.id", []⟩]
    ordered := by decide }

/-- The comments of texts that try to end them hold. -/
theorem enclosed_hostile :
    ∃ v, hostile.validate [] false = .ok v ∧
      (∀ a ∈ v.registry.attributes, Enclosed a (unlines (constant (Doc.ofAttribute a)))) ∧
        (v.registry.attributes.map Attribute.key).Pairwise (fun a b => compare a b = .lt) ∧
        ∀ p : JavaProfile, emit (docs v) v.registry.version p = opening v.registry.version p
          ++ (v.registry.attributes.flatMap fun a => unlines (constant (Doc.ofAttribute a)) ++ ['\n'])
          ++ closing p := by
  have hown : ∀ a ∈ hostile.attributes, ∀ f ∈ a.ownFindings, f.isError = false := by
    decide
  have hrule : ∀ a ∈ hostile.attributes, hostile.FollowsReplacementRule a := by
    unfold hostile Registry.attributes
    simp only [List.map_cons, List.map_nil, List.forall_mem_cons, List.not_mem_nil, false_implies,
      implies_true, and_true]
    refine ⟨⟨nofun, fun _ => rfl⟩, ⟨fun _ => ?_, fun hne => absurd rfl hne⟩⟩
    exact ⟨_, List.mem_cons_self, rfl, nofun⟩
  have hwf : hostile.WellFormed :=
    ⟨fun a ha => Attribute.noErrors_ownFindings.mp (hown a ha), hrule, by decide⟩
  obtain ⟨v, hv⟩ := hwf.exists_validate
  exact ⟨v, hv, enclosed_constant hv⟩

end AttributeRegistry.Codegen.Java
