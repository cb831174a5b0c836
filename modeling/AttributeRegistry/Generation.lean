import AttributeRegistry.Codegen.Artifact
import AttributeRegistry.Compilation

/-!
# Generation

The whole way from sources to generated modules. A request says all that the outcome depends on
besides the sources.
-/

namespace AttributeRegistry

open Codegen

/-- What is asked of a run. -/
structure Request where
  targets : List Target
  /-- A version that stands for the declared ones. -/
  version : Option Version
  profiles : Profiles
  /-- Whether warnings count as errors. -/
  strict : Bool

/-- What a run gives. -/
structure Run where
  registry : ValidRegistry
  artifacts : Artifacts

namespace Request

/-- All targets, declared versions, default profiles; warnings are no errors. -/
def default : Request :=
  ⟨Target.all, none, .default, false⟩

/-- The valid registry of some sources, or all findings. -/
def compile (r : Request) (sources : List Source) : Except Report ValidRegistry :=
  AttributeRegistry.compile sources r.version r.strict

/-- The registry and the modules of some sources, or all findings. -/
def run (r : Request) (sources : List Source) : Except Report Run := do
  let v ← r.compile sources
  return ⟨v, Codegen.generate v r.targets r.profiles⟩

end Request

end AttributeRegistry
