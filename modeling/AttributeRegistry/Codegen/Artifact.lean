import AttributeRegistry.Codegen.Java
import AttributeRegistry.Codegen.Python
import AttributeRegistry.Codegen.Rust

/-!
# Artifacts

The generated modules, one for each target, and the manifest that records them: the registry's
version and checksum, and every file's name and checksum.
-/

namespace AttributeRegistry.Codegen

/-- A generated module. -/
structure Artifact where
  target : Target
  fileName : String
  content : String
  checksum : Checksum
deriving DecidableEq, Repr

/-- What a manifest says about a file. -/
structure ManifestItem where
  target : Target
  fileName : String
  checksum : Checksum
deriving DecidableEq, Repr

/-- The record of a run. -/
structure Manifest where
  version : Version
  checksum : Checksum
  items : List ManifestItem
deriving DecidableEq

/-- The name of the file with the manifest. -/
def manifestFile : String :=
  "registry-manifest.json"

/-- The modules of a run, in the order of their targets. -/
structure Artifacts where
  version : Version
  checksum : Checksum
  items : List Artifact
deriving DecidableEq

/-! ## Generation -/

/-- The module of a target. -/
def render (v : ValidRegistry) (p : Profiles) (t : Target) : Artifact :=
  let version := v.registry.version
  let text := match t with
    | .rust => Rust.emit (docs v) version
    | .python => Python.emit (docs v) version p.python
    | .java => Java.emit (docs v) version p.java
  let content := String.ofList text
  ⟨t, p.fileName t, content, .ofText content⟩

/-- The modules of some targets, each once. -/
def generate (v : ValidRegistry) (targets : List Target) (p : Profiles) : Artifacts :=
  { version := v.registry.version
    checksum := v.registry.checksum
    items := (Target.all.filter targets.contains).map (render v p) }

/-! ## Manifests -/

/-- The manifest of a run. -/
def Artifacts.manifest (a : Artifacts) : Manifest :=
  ⟨a.version, a.checksum, a.items.map fun i => ⟨i.target, i.fileName, i.checksum⟩⟩

/-- What a manifest says about a file, as JSON. -/
def ManifestItem.toJson (i : ManifestItem) : Json :=
  .obj [("target", .str i.target.name), ("file_name", .str i.fileName),
    ("checksum", .str i.checksum.hex)]

/-- A manifest as JSON. -/
def Manifest.toJson (m : Manifest) : Json :=
  .obj [("registry_version", .str m.version.text), ("registry_checksum", .str m.checksum.hex),
    ("artifacts", .arr (m.items.map ManifestItem.toJson))]

/-- A manifest as it is written. -/
def Manifest.toText (m : Manifest) : String :=
  m.toJson.toIndentedText ++ "\n"

/-- What a manifest says about the file of a target. -/
def Manifest.item? (m : Manifest) (t : Target) : Option ManifestItem :=
  m.items.find? fun i => i.target = t

end AttributeRegistry.Codegen
