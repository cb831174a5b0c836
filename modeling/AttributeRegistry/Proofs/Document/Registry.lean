import AttributeRegistry.Document.Grammar
import AttributeRegistry.Proofs.Attribute.Decoding
import AttributeRegistry.Proofs.Validation.Complete
import AttributeRegistry.Proofs.Version.Reading

/-!
# The document of a registry

A registry can be written as a JSON document that declares its version and the canonical form of each
definition. In either written form the document is read as just that (`parse_document`).
-/

namespace AttributeRegistry

open Json

namespace Registry

variable {r : Registry}

/-- The document that declares the version and the definitions of a registry. -/
def document (r : Registry) : Json :=
  .obj [("version", .str r.version.text), ("attributes", .arr (r.attributes.map Attribute.toJson))]

/-- The numbers of a registry can be written and read back. -/
structure ReadsBack (r : Registry) : Prop where
  ints : ∀ a ∈ r.attributes, ∀ n ∈ a.ints, FitsInt64 n
  doubles : ∀ a ∈ r.attributes, ∀ x ∈ a.doubles,
    Json.parse (Decimal.writeJson x) = .ok (.float x)

theorem reads_document (hwf : r.WellFormed) (h : r.ReadsBack) :
    Reads (Contents.shape.readJson maxDepth) ⟨some r.version.text, [], r.attributes⟩ r.document := by
  have hattributes : ∀ a ∈ r.attributes, Reads (Attribute.shape.readJson 125) a a.toJson :=
    fun a ha => reads_attribute (hwf.attributes a ha).examples (h.ints a ha) (h.doubles a ha) 120
  exact reads_record (by decide) (.cons (reads_some (reads_text 126 r.version.text))
    (.absent (.cons (reads_list_map hattributes) .nil)))

/-- **The document of a registry declares its version and its definitions**, however it is spelled. -/
theorem parse_document (hwf : r.WellFormed) (h : r.ReadsBack) {s : Source} (hformat : s.format = .json)
    (hs : Spells r.document s.content.toList) :
    s.parse = .ok ⟨s.name, some r.version, r.attributes.zipIdx.map fun (a, i) => ⟨a, ⟨s.name, i⟩⟩⟩ := by
  have hblank : Text.isBlankText s.content = false := by
    obtain ⟨inner, hinner⟩ := hs.exists_obj
    exact Text.isBlankText_eq_false hinner (by decide)
  have hcontents : s.contents = .ok ⟨some r.version.text, [], r.attributes⟩ := by
    unfold Source.contents
    rw [hblank, hformat]
    exact decode_of_spells (reads_document hwf h) hs gap_nil (List.append_nil _).symm
  have hversion : s.versionOf (some r.version.text) = (some r.version, []) := by
    unfold Source.versionOf
    dsimp only
    rw [Version.parse_text]
  unfold Source.parse
  rw [hcontents]
  dsimp only
  rw [hversion]
  rfl

end Registry

end AttributeRegistry
