import Mathlib.Data.List.Infix
import AttributeRegistry.Proofs.Codegen.JavaComments
import AttributeRegistry.Proofs.Codegen.PythonModule
import AttributeRegistry.Proofs.Codegen.RustComments

/-!
# Links of deprecated constants

A module says of each deprecated attribute what replaces it: in Rust by the key in the mark above the
constant, in Java by a link to a constant in the comment above it, in Python by the key in the
dictionary. No emitter looks up what it names; that it is there follows from the rules of a validated
registry.

Main statement: constants are distinct and well-formed, and every link of every module names something
that the module declares and that is not itself deprecated (`linked_of_validate`).
-/

namespace AttributeRegistry.Codegen

open Text

/-! ## What modules say -/

/-- A name that starts with a capital and goes on with capitals, digits and underscores. -/
def IsConstant (name : List Char) : Prop :=
  ∃ c cs, name = c :: cs ∧ ('A' ≤ c ∧ c ≤ 'Z') ∧
    ∀ d ∈ cs, ('A' ≤ d ∧ d ≤ 'Z') ∨ ('0' ≤ d ∧ d ≤ '9') ∨ d = '_'

/-- The line that declares a constant for a key. -/
def declarationLine (t : Target) (constant key : String) : List Char :=
  match t with
  | .rust => Rust.declarationOf constant key
  | .python => Python.assigned constant key
  | .java => ("    public static final String " ++ constant ++ " = \"" ++ key ++ "\";").toList

/-- The lines that tie a deprecated constant to what replaces it. In Rust and Java the link stands
right above the declaration, in Python it is an entry of the dictionary. -/
def linkLines (t : Target) (d : Doc) (r : Replacement) : List (List Char) :=
  match t with
  | .rust =>
    [("#[deprecated(note = \"\x7bnote: Replaced by `" ++ r.key
        ++ "`., reason: renamed, renamed_to: " ++ r.key ++ "\x7d\")]").toList,
      declarationLine .rust d.constant d.definition.key]
  | .python => [Python.pairLine (d.definition.key, r.key)]
  | .java =>
    [Java.docLine ("@deprecated Replaced by \x7b@link #" ++ r.constant ++ "\x7d.").toList,
      "     */".toList, "    @Deprecated".toList, declarationLine .java d.constant d.definition.key]

/-- The lines of the module of a target. -/
def moduleLines (v : ValidRegistry) (p : Profiles) (t : Target) : List (List Char) :=
  splitOn '\n' (render v p t).content.toList

/-- A replacement names the one attribute that has its key, which is another one, has its constant and
is not deprecated. -/
structure Resolves (ds : List Doc) (d : Doc) (r : Replacement) : Prop where
  target : ∃ e, ds.filter (fun e => e.definition.key = r.key) = [e] ∧ e.constant = r.constant ∧
    e.definition.isDeprecated = false
  other : r.key ≠ d.definition.key

/-- Constants are usable, exactly the deprecated ones are linked, and every link leads to something that
the module declares. -/
structure Linked (v : ValidRegistry) : Prop where
  distinct : ((docs v).map Doc.constant).Nodup
  names : ∀ d ∈ docs v, IsConstant d.constant.toList
  replaced : ∀ d ∈ docs v, d.replacement.isSome = d.definition.isDeprecated
  resolves : ∀ d ∈ docs v, ∀ r, d.replacement = some r → Resolves (docs v) d r
  declared : ∀ t p, ∀ d ∈ docs v,
    declarationLine t d.constant d.definition.key ∈ moduleLines v p t
  links : ∀ t p, ∀ d ∈ docs v, ∀ r, d.replacement = some r →
    linkLines t d r <:+: moduleLines v p t ∧ declarationLine t r.constant r.key ∈ moduleLines v p t
  /-- The dictionary that ends every Python module leads to keys that are not in it. -/
  dictionary : ∃ es, Python.readDictionary (Python.mapping v) = some es ∧
    (∀ p, '\n' :: Python.mapping v <:+ (render v p .python).content.toList) ∧
    ∀ e ∈ es, (∃ d ∈ docs v, d.definition.key = e.2) ∧ e.2 ∉ es.map Prod.fst

/-! ## Constants -/

variable {v : ValidRegistry}

theorem forall_mem_docs {q : Doc → Prop} :
    (∀ d ∈ docs v, q d) ↔ ∀ a ∈ v.registry.attributes, q (Doc.ofAttribute a) :=
  List.forall_mem_map

/-- **Constants are distinct.** -/
theorem nodup_constants (hwf : v.registry.WellFormed) : ((docs v).map Doc.constant).Nodup := by
  have hkeys := v.registry.nodup_keys
  have hconstants : (docs v).map Doc.constant = v.registry.keys.map constantName := by
    rw [docs, Registry.keys_eq, List.map_map, List.map_map]
    rfl
  rw [hconstants]
  exact hkeys.map_on hwf.constants

theorem isConstant_constantName {key : String} (h : Key.WellFormed key.toList) :
    IsConstant (constantName key).toList := by
  have hchars := fun d hd => h.mem_constantName (c := d) hd
  obtain ⟨segments, hlength, hsegments, hkey⟩ := h
  obtain ⟨first, second, rest, rfl⟩ : ∃ first second rest, segments = first :: second :: rest := by
    match segments, hlength with
    | first :: second :: rest, _ => exact ⟨first, second, rest, rfl⟩
  obtain ⟨c, cs, rfl, ⟨hlow, hhigh⟩, -⟩ := hsegments first List.mem_cons_self
  have hcapital : ∀ n ∈ List.range 0x7F, 97 ≤ n ∧ n ≤ 122 →
      'A' ≤ constantChar (Char.ofNat n) ∧ constantChar (Char.ofNat n) ≤ 'Z' := by
    decide +kernel
  have hnat : 97 ≤ c.toNat ∧ c.toNat ≤ 122 := ⟨hlow, hhigh⟩
  have hfirst := hcapital c.toNat (List.mem_range.mpr (by omega)) hnat
  rw [Char.ofNat_toNat] at hfirst
  rw [constantName, String.toList_ofList, hkey] at hchars ⊢
  exact ⟨_, _, rfl, hfirst, fun d hd => hchars d (List.mem_cons_of_mem _ hd)⟩

/-! ## Replacements -/

/-- The documentation of a replacement: that of the attribute which replaces. -/
theorem exists_of_replacement (hwf : v.registry.WellFormed) {a : Attribute}
    (ha : a ∈ v.registry.attributes) {r : Replacement} (h : (Doc.ofAttribute a).replacement = some r) :
    a.stability = .deprecated ∧ a.replacement? = some r.key ∧ ∃ b ∈ v.registry.attributes,
      b.key = r.key ∧ constantName b.key = r.constant ∧ b.stability ≠ .deprecated := by
  obtain ⟨key, hkey, rfl⟩ := Option.map_eq_some_iff.mp h
  have hdeprecated : a.isDeprecated = true := by
    rw [← hwf.isSome_replacement ha, hkey]
    rfl
  have hstability := Registry.isDeprecated_iff.mp hdeprecated
  obtain ⟨b, hb, hby, hnot⟩ := (hwf.replacements a ha).1 hstability
  rw [Attribute.replacement?, if_pos hdeprecated, hby] at hkey
  cases hkey
  refine ⟨hstability, ?_, b, hb, rfl, rfl, hnot⟩
  rw [Attribute.replacement?, if_pos hdeprecated, hby]

/-- Exactly one attribute has its key. -/
theorem filter_key_docs {b : Attribute} (hb : b ∈ v.registry.attributes) :
    (docs v).filter (fun e => e.definition.key = b.key) = [Doc.ofAttribute b] := by
  have hnodup : v.registry.attributes.Nodup := by
    have hkeys := v.registry.nodup_keys
    rw [Registry.keys_eq] at hkeys
    exact hkeys.of_map
  have hone : (v.registry.attributes.filter fun a => a.key = b.key) = [b] := by
    have hmem : b ∈ v.registry.attributes.filter fun a => a.key = b.key := by
      rw [List.mem_filter]
      exact ⟨hb, decide_eq_true rfl⟩
    have hle : (v.registry.attributes.filter fun a => a.key = b.key).length ≤ 1 := by
      rw [Ordered.length_le_one_iff_of_nodup (hnodup.filter _)]
      simp only [List.mem_filter, decide_eq_true_eq]
      rintro x ⟨hx, hxkey⟩ y ⟨hy, hykey⟩
      exact Registry.eq_of_key_eq hx hy (hxkey.trans hykey.symm)
    obtain ⟨x, hx⟩ := List.length_eq_one_iff.mp (Nat.le_antisymm hle (List.length_pos_of_mem hmem))
    rw [hx] at hmem ⊢
    rw [List.mem_singleton.mp hmem]
  rw [docs, List.filter_map, ← List.map_singleton, ← hone]
  rfl

/-- **What replaces an attribute is the one other attribute of its key.** -/
theorem resolves_of_wellFormed (hwf : v.registry.WellFormed) {a : Attribute}
    (ha : a ∈ v.registry.attributes) {r : Replacement} (h : (Doc.ofAttribute a).replacement = some r) :
    Resolves (docs v) (Doc.ofAttribute a) r := by
  obtain ⟨hdeprecated, -, b, hb, hkey, hconstant, hnot⟩ := exists_of_replacement hwf ha h
  refine ⟨⟨Doc.ofAttribute b, ?_, hconstant, Registry.isDeprecated_eq_false_iff.mpr hnot⟩, ?_⟩
  · rw [← hkey, filter_key_docs hb]
  · rintro hsame
    rw [← hkey] at hsame
    rw [Registry.eq_of_key_eq hb ha hsame] at hnot
    exact hnot hdeprecated

/-! ## Lines -/

/-- What an attribute is declared by has no line break. -/
theorem newline_not_mem_declarationLine (t : Target) {key : String} (h : Key.WellFormed key.toList) :
    '\n' ∉ declarationLine t (constantName key) key := by
  have hkey := Plain.of_wellFormed h
  have hname := plain_constantName h
  refine Plain.not_mem_newline ?_
  cases t
  all_goals
    simp only [declarationLine, Rust.declarationOf, Python.assigned, String.toList_append, plain_append]
  case rust => exact ⟨⟨⟨⟨by decide, hname⟩, by decide⟩, hkey⟩, by decide⟩
  case python => exact ⟨by decide, ⟨⟨hname, by decide⟩, hkey⟩, by decide⟩
  case java => exact ⟨⟨⟨⟨by decide, hname⟩, by decide⟩, hkey⟩, by decide⟩

theorem newline_not_mem_linkLines (t : Target) {a : Attribute} {key : String}
    (ha : Key.WellFormed a.key.toList) (h : Key.WellFormed key.toList) :
    ∀ line ∈ linkLines t (Doc.ofAttribute a) ⟨key, constantName key⟩, '\n' ∉ line := by
  have hkey := Plain.of_wellFormed h
  have hname := plain_constantName h
  have hdeclaration := newline_not_mem_declarationLine t ha
  cases t with
  | rust =>
    refine List.forall_mem_cons.mpr ⟨Plain.not_mem_newline ?_, List.forall_mem_singleton.mpr hdeclaration⟩
    simp only [String.toList_append, plain_append]
    exact ⟨⟨⟨⟨by decide, hkey⟩, by decide⟩, hkey⟩, by decide⟩
  | python =>
    have hpair : '\n' ∉ Python.pairLine (a.key, key) :=
      Python.newline_not_mem_pairLine (.of_wellFormed ha) hkey
    exact List.forall_mem_singleton.mpr hpair
  | java =>
    have hlink : '\n' ∉ Java.docLine
        ("@deprecated Replaced by \x7b@link #" ++ constantName key ++ "\x7d.").toList := by
      refine Plain.not_mem_newline (plain_append.mpr ⟨by decide, ?_⟩)
      simp only [String.toList_append, plain_append]
      exact ⟨⟨by decide, hname⟩, by decide⟩
    simp only [linkLines, List.forall_mem_cons]
    exact ⟨hlink, by decide, by decide, hdeclaration, by simp⟩

/-- Lines without line breaks are lines of a text that is made of them and others. -/
theorem among_splitOn_unlines {lines texts : List (List Char)} (h : lines <:+: texts)
    (hline : ∀ line ∈ lines, '\n' ∉ line) : lines <:+: splitOn '\n' (unlines texts) := by
  obtain ⟨before, behind, rfl⟩ := h
  rw [splitOn_unlines, List.flatMap_append, List.flatMap_append, flatMap_splitOn_of_not_mem hline,
    List.append_assoc]
  exact ⟨_, _, rfl⟩

/-- The lines of a module, before they are put together. -/
def emitted (v : ValidRegistry) (p : Profiles) : Target → List (List Char)
  | .rust => Rust.lines (docs v) v.registry.version
  | .python => Python.lines (docs v) v.registry.version p.python
  | .java => Java.lines (docs v) v.registry.version p.java

theorem moduleLines_eq (v : ValidRegistry) (p : Profiles) (t : Target) :
    moduleLines v p t = splitOn '\n' (unlines (emitted v p t)) := by
  unfold moduleLines render
  dsimp only
  rw [String.toList_ofList]
  cases t <;> rfl

/-- The lines of an attribute in the module of a target. -/
def constantLines : Target → Doc → List (List Char)
  | .rust => Rust.constant
  | .python => Python.constant
  | .java => Java.constant

/-- The lines of an attribute are in the module. -/
theorem constantLines_among {d : Doc} (hd : d ∈ docs v) (p : Profiles) (t : Target) :
    constantLines t d <:+: emitted v p t := by
  obtain ⟨before, behind, hdocs⟩ := List.append_of_mem hd
  have hblocks : ∀ f : Doc → List (List Char), f d <:+: (docs v).flatMap f := by
    intro f
    rw [hdocs, List.flatMap_append, List.flatMap_cons, ← List.append_assoc]
    exact ⟨_, _, rfl⟩
  cases t with
  | rust =>
    have hlines : Rust.constant d <:+: (docs v).flatMap fun d => [] :: Rust.constant d :=
      (List.suffix_cons _ _).isInfix.trans (hblocks fun d => [] :: Rust.constant d)
    exact hlines.trans (List.suffix_append _ _).isInfix
  | python =>
    have hlines : Python.constant d <:+: (docs v).flatMap fun d => [] :: Python.constant d :=
      (List.suffix_cons _ _).isInfix.trans (hblocks fun d => [] :: Python.constant d)
    have hclass : Python.constant d <:+: Python.classLines (docs v) p.python :=
      hlines.trans (List.suffix_append _ _).isInfix
    exact hclass.trans ⟨_, [[]] ++ Python.dictionary (docs v), (List.append_assoc _ _ _).symm⟩
  | java =>
    have hlines : Java.constant d <:+: (docs v).flatMap fun d => Java.constant d ++ [[]] :=
      (List.prefix_append _ _).isInfix.trans (hblocks fun d => Java.constant d ++ [[]])
    exact hlines.trans ⟨_, _, rfl⟩

theorem declarationLine_mem {a : Attribute} (h : Key.WellFormed a.key.toList) (t : Target) :
    declarationLine t (constantName a.key) a.key ∈ constantLines t (Doc.ofAttribute a) := by
  cases t with
  | rust =>
    rw [declarationLine, ← Rust.declaration_eq h]
    exact List.mem_append_right _ (List.mem_singleton_self _)
  | python => exact List.mem_cons_self
  | java => exact List.mem_append_right _ (List.mem_singleton_self _)

/-- A link stands right above the declaration, or in the dictionary. -/
theorem linkLines_among {a : Attribute} (ha : a ∈ v.registry.attributes) (hkey : Key.WellFormed a.key.toList)
    {r : Replacement} (h : (Doc.ofAttribute a).replacement = some r) (p : Profiles) (t : Target) :
    linkLines t (Doc.ofAttribute a) r <:+: emitted v p t := by
  have hd : Doc.ofAttribute a ∈ docs v := List.mem_map_of_mem ha
  have hblock := constantLines_among hd p t
  cases t with
  | rust =>
    have hlines : Rust.deprecation (Doc.ofAttribute a) ++ [Rust.declaration (Doc.ofAttribute a)] =
        linkLines .rust (Doc.ofAttribute a) r := by
      rw [Rust.deprecation, h, Rust.declaration_eq hkey]
      rfl
    refine List.IsInfix.trans ?_ hblock
    rw [← hlines, constantLines, Rust.constant, List.append_assoc]
    exact (List.suffix_append _ _).isInfix
  | python =>
    have hmem : ((Doc.ofAttribute a).definition.key, r.key) ∈ Python.replacements (docs v) :=
      List.mem_filterMap.mpr ⟨_, hd, by rw [h]; rfl⟩
    have hline : Python.pairLine ((Doc.ofAttribute a).definition.key, r.key) ∈
        Python.dictionary (docs v) := by
      unfold Python.dictionary
      dsimp only
      split
      · next hnil =>
        rw [hnil] at hmem
        cases hmem
      · exact List.mem_append_left _ (List.mem_append_right _ (List.mem_map_of_mem hmem))
    exact ((List.singleton_infix_iff _ _).mpr hline).trans (List.suffix_append _ _).isInfix
  | java =>
    have hlines : (Java.deprecation (Doc.ofAttribute a)).map Java.docLine ++ ["     */".toList]
        ++ ["    @Deprecated".toList] ++ [Java.declaration (Doc.ofAttribute a)] =
        linkLines .java (Doc.ofAttribute a) r := by
      rw [Java.deprecation, h]
      rfl
    obtain ⟨first, hfirst⟩ : ∃ first, Java.comment (Doc.ofAttribute a) =
        first ++ Java.deprecation (Doc.ofAttribute a) := ⟨_, rfl⟩
    have hconstant : Java.constant (Doc.ofAttribute a) =
        ("    /**".toList :: first.map Java.docLine) ++ linkLines .java (Doc.ofAttribute a) r := by
      rw [← hlines, Java.constant, hfirst, h, List.map_append]
      simp only [Option.isSome_some, if_true, List.append_assoc, List.cons_append, List.nil_append]
    refine List.IsInfix.trans ?_ hblock
    rw [constantLines, hconstant]
    exact (List.suffix_append _ _).isInfix

/-! ## The modules -/

variable {r : Registry} {prior : Report} {strict : Bool}

/-- **Constants are usable, and every link of every module leads to something the module declares.** -/
theorem linked_of_validate (h : r.validate prior strict = .ok v) : Linked v := by
  have hwf := Registry.wellFormed_of_validate h
  have hkey : ∀ a ∈ v.registry.attributes, Key.WellFormed a.key.toList :=
    fun a ha => (hwf.attributes a ha).key
  have hdeclared : ∀ t p, ∀ a ∈ v.registry.attributes,
      declarationLine t (constantName a.key) a.key ∈ moduleLines v p t := by
    intro t p a ha
    have hline : [declarationLine t (constantName a.key) a.key] <:+: emitted v p t :=
      (List.singleton_infix_iff _ _).mpr ((constantLines_among (List.mem_map_of_mem ha) p t).subset
        (declarationLine_mem (hkey a ha) t))
    rw [moduleLines_eq]
    exact (among_splitOn_unlines hline (List.forall_mem_singleton.mpr
      (newline_not_mem_declarationLine t (hkey a ha)))).subset (List.mem_singleton_self _)
  refine ⟨nodup_constants hwf, ?_, ?_, ?_, ?_, ?_, ?_⟩
  · exact forall_mem_docs.mpr fun a ha => isConstant_constantName (hkey a ha)
  · refine forall_mem_docs.mpr fun a ha => ?_
    rw [show (Doc.ofAttribute a).definition.isDeprecated = a.isDeprecated from rfl,
      ← hwf.isSome_replacement ha]
    exact Option.isSome_map
  · exact forall_mem_docs.mpr fun a ha r hr => resolves_of_wellFormed hwf ha hr
  · exact fun t p => forall_mem_docs.mpr (hdeclared t p)
  · refine fun t p => forall_mem_docs.mpr fun a ha r hr => ?_
    obtain ⟨-, -, b, hb, hbkey, hbconstant, -⟩ := exists_of_replacement hwf ha hr
    obtain ⟨key, constant⟩ := r
    obtain rfl : b.key = key := hbkey
    obtain rfl : constantName b.key = constant := hbconstant
    refine ⟨?_, hdeclared t p b hb⟩
    rw [moduleLines_eq]
    exact among_splitOn_unlines (linkLines_among ha (hkey a ha) hr p t)
      (newline_not_mem_linkLines t (hkey a ha) (hkey b hb))
  · have hentry : ∀ e ∈ Python.replacements (docs v), ∃ a ∈ v.registry.attributes,
        a.key = e.1 ∧ a.stability = .deprecated ∧ ∃ b ∈ v.registry.attributes,
          b.key = e.2 ∧ b.stability ≠ .deprecated := by
      rintro e he
      obtain ⟨d, hd, he⟩ := List.mem_filterMap.mp he
      obtain ⟨r, hr, rfl⟩ := Option.map_eq_some_iff.mp he
      obtain ⟨a, ha, rfl⟩ := List.mem_map.mp hd
      obtain ⟨hdeprecated, -, b, hb, hbkey, -, hnot⟩ := exists_of_replacement hwf ha hr
      exact ⟨a, ha, rfl, hdeprecated, b, hb, hbkey, hnot⟩
    refine ⟨Python.replacements (docs v), Python.readDictionary_unlines ?_, ?_, ?_⟩
    · intro e he
      obtain ⟨a, ha, hakey, -, b, hb, hbkey, -⟩ := hentry e he
      exact ⟨hakey ▸ hkey a ha, hbkey ▸ hkey b hb⟩
    · intro p
      unfold render
      dsimp only
      rw [String.toList_ofList, Python.emit_docs]
      exact List.suffix_append _ _
    · intro e he
      obtain ⟨-, -, -, -, b, hb, hbkey, hnot⟩ := hentry e he
      refine ⟨⟨Doc.ofAttribute b, List.mem_map_of_mem hb, hbkey⟩, fun hmem => ?_⟩
      -- the key of an entry is that of a deprecated attribute
      obtain ⟨e', he', hsame⟩ := List.mem_map.mp hmem
      obtain ⟨a, ha, hakey, hdeprecated, -⟩ := hentry e' he'
      have heq : a = b := Registry.eq_of_key_eq ha hb (by rw [hakey, hsame, hbkey])
      exact hnot (heq ▸ hdeprecated)

/-- Two attributes, of which one replaces the other. -/
private def renamed : Registry :=
  { version := .release 1 0 0
    entries :=
      [⟨Attribute.new "host.id" (.primitive (.scalar .string)) "The host." [.text "a1"], []⟩,
        ⟨(Attribute.new "host.name" (.primitive (.scalar .string)) "The name." [.text "a"]).deprecatedInFavorOf
          "host.id", []⟩]
    ordered := by decide }

/-- The one deprecated constant leads to the other one. -/
theorem linked_renamed : ∃ v, renamed.validate [] false = .ok v ∧ Linked v := by
  have hown : ∀ a ∈ renamed.attributes, ∀ f ∈ a.ownFindings, f.isError = false := by
    decide
  have hrule : ∀ a ∈ renamed.attributes, renamed.FollowsReplacementRule a := by
    decide
  have hwf : renamed.WellFormed :=
    ⟨fun a ha => Attribute.noErrors_ownFindings.mp (hown a ha), hrule, by decide⟩
  obtain ⟨v, hv⟩ := hwf.exists_validate
  exact ⟨v, hv, linked_of_validate hv⟩

end AttributeRegistry.Codegen
