import AttributeRegistry.Codegen.Artifact
import AttributeRegistry.Json.Reader
import AttributeRegistry.Version.Parser

/-!
# Reading manifests

The shape of a manifest, and reading one back from what was written.
-/

namespace AttributeRegistry

open Shape

/-- The shape of a semantic version. -/
def Version.shape : Shape Version :=
  .parsed "semver version" fun s => (Version.ofChars s.toList).mapError Version.Error.message

/-- The shape of a checksum. -/
def Checksum.shape : Shape Checksum :=
  .parsed "a string" fun s => .ok ⟨s⟩

/-- The shape of a target. -/
def Target.shape : Shape Target :=
  .choice "Target" Target.cases

namespace Codegen

/-- The shape of what a manifest says about a file. -/
def ManifestItem.shape : Shape ManifestItem :=
  .record "ManifestEntry" false
    (field "target" Target.shape <|
     field "file_name" .text <|
     field "checksum" Checksum.shape .nil)
    fun (target, fileName, checksum, ()) => ⟨target, fileName, checksum⟩

/-- The shape of a manifest. -/
def Manifest.shape : Shape Manifest :=
  .record "Manifest" false
    (field "registry_version" Version.shape <|
     field "registry_checksum" Checksum.shape <|
     field "artifacts" (.list ManifestItem.shape) .nil)
    fun (version, checksum, items, ()) => ⟨version, checksum, items⟩

/-- The manifest of a text. -/
def Manifest.parse (text : String) : Except String Manifest :=
  Json.decode Manifest.shape text

end Codegen

end AttributeRegistry
