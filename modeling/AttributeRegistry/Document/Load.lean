import AttributeRegistry.Document.Grammar

/-!
# Loading documents

Every source is parsed, whatever is wrong with the others: the sources that follow the grammar give
documents, the rest gives findings, both in the order of the sources.
-/

namespace AttributeRegistry

/-- The documents of some sources, and what is wrong with the sources that give none. -/
structure Loaded where
  documents : List Document
  findings : Report

namespace Loaded

/-- Loads sources. -/
def ofSources (sources : List Source) : Loaded :=
  { documents := sources.filterMap fun s => s.parse.toOption
    findings := sources.flatMap fun s =>
      match s.parse with
      | .ok _ => []
      | .error problems => problems }

/-- Every declaration of every document. -/
def fragments (l : Loaded) : List Fragment :=
  l.documents.flatMap Document.fragments

end Loaded

end AttributeRegistry
