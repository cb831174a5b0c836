import AttributeRegistry.Document.Load
import AttributeRegistry.Resolution
import AttributeRegistry.Validation

/-!
# Compilation

From sources to a valid registry: load, merge, check. Whatever is wrong at any stage is reported
together.
-/

namespace AttributeRegistry

/-- Everything found about a source and its declarations before the registry is checked. -/
def Loaded.resolve (l : Loaded) (given : Option Version) : Registry × Report :=
  let resolution := Resolution.ofDocuments given l.documents
  (resolution.registry, l.findings ++ resolution.findings)

/-- The valid registry of some sources, or all findings. A given version stands for the declared
ones; `strict` turns warnings into errors. -/
def compile (sources : List Source) (given : Option Version) (strict : Bool) :
    Except Report ValidRegistry :=
  let (registry, prior) := (Loaded.ofSources sources).resolve given
  registry.validate prior strict

end AttributeRegistry
