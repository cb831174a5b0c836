import AttributeRegistry.Proofs.Json.Reading
import AttributeRegistry.Proofs.Version.Reading
import AttributeRegistry.Codegen.Manifest

/-!
# Manifests read back

Main statement: the text of a manifest is read as that manifest (`Manifest.parse_toText`).
-/

namespace AttributeRegistry.Codegen

open Json

variable {n : Nat}

theorem reads_version (v : Version) : Reads (Version.shape.readJson n) v (.str v.text) := by
  refine reads_parsed ?_ n
  rw [Version.ofChars_text]
  rfl

theorem reads_checksum (c : Checksum) : Reads (Checksum.shape.readJson n) c (.str c.hex) := by
  refine reads_parsed ?_ n
  rfl

theorem reads_target (t : Target) : Reads (Target.shape.readJson n) t (.str t.name) := by
  refine reads_choice ?_ n
  cases t <;> rfl

/-- The entry of a manifest is written field by field. -/
theorem reads_manifestItem (i : ManifestItem) :
    Reads (ManifestItem.shape.readJson (n + 1)) i i.toJson :=
  reads_record (by decide) (.cons (reads_target i.target) (.cons (reads_text n i.fileName)
    (.cons (reads_checksum i.checksum) .nil)))

theorem reads_manifest (m : Manifest) : Reads (Manifest.shape.readJson (n + 3)) m m.toJson := by
  have hitems : Reads ((Shape.list ManifestItem.shape).readJson (n + 2)) m.items
      (.arr (m.items.map ManifestItem.toJson)) :=
    reads_list_map fun i _ => reads_manifestItem i
  exact reads_record (by decide) (.cons (reads_version m.version)
    (.cons (reads_checksum m.checksum) (.cons hitems .nil)))

/-- **The text of a manifest is read as that manifest.** -/
theorem Manifest.parse_toText (m : Manifest) : Manifest.parse m.toText = .ok m := by
  refine decode_of_spells (reads_manifest m) (spells_indented 0 m.toJson) (gap_newLine 0) ?_
  rw [Manifest.toText, toIndentedText, String.toList_append, String.toList_ofList]
  rfl

end AttributeRegistry.Codegen
