import AttributeRegistry.Namespace
import AttributeRegistry.Path
import AttributeRegistry.Version.Basic

/-!
# Registry documents

A source is the text of a document together with its name and its format. A document is what a
source that follows the grammar declares: perhaps a registry version, and attributes.
-/

namespace AttributeRegistry

/-- The format of a document. -/
inductive Format where
  | yaml | json
deriving DecidableEq, Repr

/-- The name of a format. -/
def Format.name : Format → String
  | .yaml => "yaml"
  | .json => "json"

/-- The format a path's extension stands for. -/
def Format.ofPath? (path : String) : Option Format :=
  match Path.extension? path with
  | some "yaml" | some "yml" => some .yaml
  | some "json" => some .json
  | _ => none

/-- The text of a document. -/
structure Source where
  name : String
  format : Format
  content : String
deriving DecidableEq, Repr

/-- What a document declares. -/
structure Document where
  name : String
  version : Option Version
  fragments : List Fragment

end AttributeRegistry
