import AttributeRegistry.Document.Basic
import AttributeRegistry.Finding
import AttributeRegistry.Registry

/-!
# Resolution

Merging the declarations of all documents into one registry. Declarations of a key with the same
canonical form are one variant of its definition. If a key has several variants, the one that is
declared first, by document and then by place, stands; each of the others is a conflict.

Nothing depends on the order of the declarations.
-/

namespace AttributeRegistry

/-- A definition of a key and where it is declared, in order. -/
structure Variant where
  definition : Attribute
  origins : List Origin

namespace Resolution

/-! ## Versions -/

/-- A document and the version it declares. -/
abbrev Declared := String × Version

/-- The declared versions in order, each once. -/
def versions (declared : List Declared) : List Version :=
  Ordered.distinct Version.compare (declared.map Prod.snd)

/-- The documents that declare a version, in order. -/
def documentsOf (declared : List Declared) (v : Version) : List String :=
  Ordered.sortStrings ((declared.filter fun d => d.2 = v).map Prod.fst)

/-- The finding that documents declare different versions. -/
def versionConflict (declared : List Declared) : Finding :=
  let vs := versions declared
  .new "registry" .versionConflict
    ("documents declare " ++ toString vs.length ++ " different registry versions")
    (vs.map fun v => v.text ++ ": " ++ Text.commaList (documentsOf declared v))

/-- The version of the registry, and what is wrong with those declared: a given version stands,
whatever is declared; otherwise the least declared one, or `0.0.0`. -/
def resolveVersion (given : Option Version) (declared : List Declared) : Version × Report :=
  match given with
  | some v => (v, [])
  | none =>
    match versions declared with
    | [] => (default, [])
    | [v] => (v, [])
    | v :: _ => (v, [versionConflict declared])

/-! ## Variants -/

/-- The variant with a checksum among declarations of a key. -/
def variant? (fs : List Fragment) (hex : String) : Option Variant :=
  match fs.filter fun f => f.definition.checksum.hex = hex with
  | [] => none
  | f :: rest =>
    some ⟨f.definition, Ordered.sort Origin.compare ((f :: rest).map Fragment.origin)⟩

/-- Variants are ordered by where they are declared first. -/
def Variant.compareFirst (a b : Variant) : Ordering :=
  match a.origins, b.origins with
  | [], [] => .eq
  | [], _ :: _ => .lt
  | _ :: _, [] => .gt
  | x :: _, y :: _ => x.compare y

/-- The variants of a key's definition, the one declared first at the head. -/
def variants (fs : List Fragment) : List Variant :=
  let sums := Ordered.distinct compare (fs.map fun f => f.definition.checksum.hex)
  Ordered.sort Variant.compareFirst (sums.filterMap (variant? fs))

/-- The names of the fields in which two definitions differ. -/
def differingFields (a b : Attribute) : List String :=
  (if a.type = b.type then [] else ["type"])
  ++ (if a.brief = b.brief then [] else ["brief"])
  ++ (if a.notes = b.notes then [] else ["notes"])
  ++ (if a.examples == b.examples then [] else ["examples"])
  ++ (if a.stability = b.stability then [] else ["stability"])
  ++ (if a.deprecatedBy = b.deprecatedBy then [] else ["deprecated_by"])
  ++ (if a.constraints = b.constraints then [] else ["constraints"])

/-- The conflict between the variant that stands and another one. -/
def conflict (key : String) (first other : Variant) : Report :=
  match first.origins, other.origins with
  | a :: _, b :: _ =>
    let fields := differingFields first.definition other.definition
    [.new key .conflictingDefinition
      ("conflicting definitions of '" ++ key ++ "' in " ++ a.document ++ " and " ++ b.document)
      (["first declared at " ++ a.display, "conflicting declaration at " ++ b.display]
        ++ (if fields.isEmpty then [] else ["differs in: " ++ Text.commaList fields]))]
  | _, _ => []

/-- The conflicts of a key. -/
def conflicts (key : String) (fs : List Fragment) : Report :=
  match variants fs with
  | [] => []
  | first :: others => others.flatMap (conflict key first)

/-! ## Entries -/

/-- The declarations of a key. -/
def declarationsOf (fs : List Fragment) (key : String) : List Fragment :=
  fs.filter fun f => f.definition.key = key

/-- The entry of a key: its first variant, with each place once. -/
def entryOf? (fs : List Fragment) (key : String) : Option Entry :=
  match variants (declarationsOf fs key) with
  | first :: _ => if first.definition.key = key
    then some ⟨first.definition, Ordered.distinct Origin.compare first.origins⟩ else none
  | [] => none

theorem entryOf?_key {fs : List Fragment} {key : String} {e : Entry} (h : entryOf? fs key = some e) :
    e.key = key := by
  unfold entryOf? at h
  split at h
  · split at h
    · next hk => cases h; exact hk
    · simp at h
  · simp at h

/-- The declared keys in order. -/
def keys (fs : List Fragment) : List String :=
  Ordered.distinct compare (fs.map fun f => f.definition.key)

/-- The entries of all keys. -/
def entries (fs : List Fragment) : List Entry :=
  (keys fs).filterMap (entryOf? fs)

/-- The entries are in the order of their keys. -/
theorem pairwise_entries (fs : List Fragment) :
    ((entries fs).map Entry.key).Pairwise fun a b => compare a b = .lt := by
  rw [List.pairwise_map]
  refine List.Pairwise.filterMap (entryOf? fs) (fun a b h e he f hf => ?_)
    (Ordered.pairwise_distinct (fs.map fun f => f.definition.key))
  rw [entryOf?_key he, entryOf?_key hf]
  exact h

end Resolution

/-- A registry, and what is wrong with the declarations it was merged from. -/
structure Resolution where
  registry : Registry
  findings : Report

namespace Resolution

/-- Merges declarations, and the versions documents declare. -/
def ofFragments (given : Option Version) (fs : List Fragment) (declared : List Declared) :
    Resolution :=
  let (version, versionFindings) := resolveVersion given declared
  { registry := ⟨version, entries fs, pairwise_entries fs⟩
    findings := versionFindings ++ (keys fs).flatMap fun key => conflicts key (declarationsOf fs key) }

/-- Merges documents. -/
def ofDocuments (given : Option Version) (docs : List Document) : Resolution :=
  ofFragments given (docs.flatMap Document.fragments)
    (docs.filterMap fun d => d.version.map fun v => (d.name, v))

end Resolution

end AttributeRegistry
