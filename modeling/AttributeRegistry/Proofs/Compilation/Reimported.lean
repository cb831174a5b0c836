import AttributeRegistry.Proofs.Compilation.Spread
import AttributeRegistry.Proofs.Document.Registry

/-!
# Registries read back

The document of a valid registry compiles to the same registry: its version, its definitions and its
checksum come back unchanged.

Main statement: `compile_document`.
-/

namespace AttributeRegistry

open Json

variable {r : Registry} {s : Source}

/-! ## One source -/

theorem documents_singleton {d : Document} (h : s.parse = .ok d) :
    (Loaded.ofSources [s]).documents = [d] :=
  documents_ofSources (by rw [List.map_singleton, h]; rfl)

/-- The definitions of a document, in the order of their numbers. -/
theorem declaredDefinitions_document {version : Option Version}
    (h : s.parse = .ok ⟨s.name, version, r.attributes.zipIdx.map fun (a, i) => ⟨a, ⟨s.name, i⟩⟩⟩) :
    declaredDefinitions [s] = r.attributes := by
  rw [declaredDefinitions, Loaded.fragments, documents_singleton h, List.flatMap_singleton,
    List.map_map]
  exact List.zipIdx_map_fst 0 r.attributes

/-- A version that is declared once stands. -/
theorem resolveVersion_singleton (name : String) (v : Version) :
    Resolution.resolveVersion none [(name, v)] = (v, []) := by
  have hone : Resolution.versions [(name, v)] = [v] := by
    simp [Resolution.versions, Ordered.distinct, Ordered.sort, Ordered.dropRepeats]
  rw [Resolution.resolveVersion, hone]

/-- The definitions of a registry have keys of their own, so nothing else has to tell them apart. -/
theorem separated_attributes (r : Registry) : Separated r.attributes where
  digest a ha b hb hkey _ := by rw [Registry.eq_of_key_eq ha hb hkey]
  encoding _ ha _ hb hkey _ := Registry.eq_of_key_eq ha hb hkey

/-- **A source that declares the version and the definitions of a well-formed registry compiles to
them.** -/
theorem exists_compile_singleton (hwf : r.WellFormed)
    (h : s.parse = .ok ⟨s.name, some r.version,
      r.attributes.zipIdx.map fun (a, i) => ⟨a, ⟨s.name, i⟩⟩⟩) :
    ∃ w, compile [s] none false = .ok w ∧ w.registry.version = r.version ∧
      w.registry.attributes = r.attributes := by
  have hparse : ∀ t ∈ [s], t.parse.isOk := by
    rw [List.forall_mem_singleton, h]
    rfl
  have hdefs := declaredDefinitions_document h
  have hversions : declaredVersions [s] = [r.version] := by
    rw [declaredVersions, documents_singleton h]
    rfl
  have hnil : ((Loaded.ofSources [s]).resolve none).2 = [] := by
    rw [resolve_ofSources_snd_eq_nil_iff hparse, hversions, hdefs]
    refine ⟨.inr (by simp), fun a ha b hb hkey => ?_⟩
    rw [Registry.eq_of_key_eq ha hb hkey]
  have hattrs : ((Loaded.ofSources [s]).resolve none).1.attributes = r.attributes := by
    refine Registry.attributes_ext ?_
    intro a
    rw [mem_attributes_resolve hparse (hdefs ▸ separated_attributes r) hnil, hdefs]
  have hversion : ((Loaded.ofSources [s]).resolve none).1.version = r.version := by
    show (Resolution.ofDocuments none (Loaded.ofSources [s]).documents).registry.version = _
    rw [documents_singleton h]
    exact congrArg Prod.fst (resolveVersion_singleton s.name r.version)
  have hresolved : ((Loaded.ofSources [s]).resolve none).1.WellFormed := by
    rw [← Registry.noErrors_check_iff, Registry.check_congr hattrs]
    exact Registry.noErrors_check_iff.mpr hwf
  obtain ⟨w, hw⟩ := hresolved.exists_validate
  refine ⟨w, ?_, ?_, ?_⟩
  · rw [compile_eq, hnil]
    exact hw
  · rw [Registry.registry_of_validate hw, hversion]
  · rw [Registry.registry_of_validate hw, hattrs]

/-! ## The document of a registry -/

/-- **The document of a valid registry compiles to the same registry.** It is accepted in either of its
written forms, and version, definitions and checksum come back unchanged. Integers are those of 64 bits,
since a larger one would come back as a double, and doubles are finite, since the others are written as
the null value. That a finite double is read back from its own text is assumed. -/
theorem compile_document {prior : Report} {strict : Bool} {v : ValidRegistry}
    (hv : r.validate prior strict = .ok v)
    (hints : ∀ a ∈ v.registry.attributes, ∀ n ∈ a.ints, FitsInt64 n)
    (hfinite : ∀ a ∈ v.registry.attributes, ∀ x ∈ a.doubles, x.isFinite = true)
    (hdoubles : ∀ a ∈ v.registry.attributes, ∀ x ∈ a.doubles, x.isFinite = true →
      Json.parse (Decimal.writeJson x) = .ok (.float x))
    (hformat : s.format = .json)
    (hcontent : s.content = v.registry.document.toText ∨
      s.content = v.registry.document.toIndentedText) :
    (∃ d, s.parse = .ok d) ∧
    ∃ w, compile [s] none false = .ok w ∧ w.registry.version = v.registry.version ∧
      w.registry.attributes = v.registry.attributes ∧ w.registry.checksum = v.registry.checksum := by
  have hwf : v.registry.WellFormed := Registry.wellFormed_of_validate hv
  have hback : v.registry.ReadsBack :=
    ⟨hints, fun a ha x hx => hdoubles a ha x hx (hfinite a ha x hx)⟩
  have hspells : Spells v.registry.document s.content.toList := by
    rcases hcontent with h | h
    · rw [h, toText, String.toList_ofList]
      exact spells_compact _
    · rw [h, toIndentedText, String.toList_ofList]
      exact spells_indented 0 _
  have hparse := Registry.parse_document hwf hback hformat hspells
  obtain ⟨w, hw, hversion, hattrs⟩ := exists_compile_singleton hwf hparse
  exact ⟨⟨_, hparse⟩, w, hw, hversion, hattrs, Registry.checksum_congr hversion hattrs⟩

/-- An enumeration, a double that also has an integer among its examples, and a deprecated array. -/
private def graded : Registry :=
  { version := .release 1 4 0
    entries :=
      [⟨(Attribute.new "app.level"
            (.enumeration [⟨"low", .int 1, some "Low."⟩, ⟨"high", .int 2, none⟩]) "The level."
            [.int 2]).withConstraint ⟨["metric"], [], some "It varies."⟩, []⟩,
        ⟨(Attribute.new "app.ratio" (.primitive (.scalar .double)) "The \"ratio\"."
            [.double 0.25, .int 1]).withNotes "Between 0.0 and 1.0.", []⟩,
        ⟨(Attribute.new "app.ratios" (.primitive (.array .double)) "The ratios."
            [.list [.double 1.0, .double 0.1], .list []]).deprecatedInFavorOf "app.ratio", []⟩]
    ordered := by decide }

/-- Levels and ratios come back from the compact form of their document. -/
theorem compile_document_graded : ∃ v : ValidRegistry,
    graded.validate [] false = .ok v ∧ v.registry = graded ∧
    ∃ w, compile [⟨"copy.json", .json, graded.document.toText⟩] none false = .ok w ∧
      w.registry.version = graded.version ∧ w.registry.attributes = graded.attributes ∧
      w.registry.checksum = graded.checksum := by
  have hown : ∀ a ∈ graded.attributes, ∀ f ∈ a.ownFindings, f.isError = false := by
    decide
  have hrule : ∀ a ∈ graded.attributes, graded.FollowsReplacementRule a := by
    decide
  have hwf : graded.WellFormed :=
    ⟨fun a ha => Attribute.noErrors_ownFindings.mp (hown a ha), hrule, by decide⟩
  obtain ⟨v, hv⟩ := hwf.exists_validate
  have hregistry : v.registry = graded := Registry.registry_of_validate hv
  have hints : ∀ a ∈ graded.attributes, ∀ n ∈ a.ints, FitsInt64 n := by
    decide
  have hdoubles : ∀ a ∈ graded.attributes, ∀ x ∈ a.doubles,
      x.isFinite = true ∧ Json.parse (Decimal.writeJson x) = .ok (.float x) := by
    have hlist : graded.attributes.flatMap Attribute.doubles = [0.25, 1.0, 0.1] := rfl
    have hall : ∀ x ∈ [(0.25 : Float), 1.0, 0.1],
        x.isFinite = true ∧ Json.parse (Decimal.writeJson x) = .ok (.float x) := by
      simp only [List.forall_mem_cons, List.not_mem_nil, false_implies, implies_true, and_true]
      exact ⟨⟨rfl, rfl⟩, ⟨rfl, rfl⟩, rfl, rfl⟩
    exact fun a ha x hx => hall x (hlist ▸ List.mem_flatMap_of_mem ha hx)
  rw [← hregistry] at hints hdoubles
  obtain ⟨-, w, hw, hsame⟩ := compile_document (s := ⟨"copy.json", .json, v.registry.document.toText⟩)
    hv hints (fun a ha x hx => (hdoubles a ha x hx).1) (fun a ha x hx _ => (hdoubles a ha x hx).2)
    rfl (.inl rfl)
  rw [hregistry] at hw hsame
  exact ⟨v, hv, hregistry, w, hw, hsame⟩

end AttributeRegistry
