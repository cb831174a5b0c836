import AttributeRegistry.Attribute.Grammar
import AttributeRegistry.Document.Basic
import AttributeRegistry.Finding
import AttributeRegistry.Json.Reader
import AttributeRegistry.Version.Parser
import AttributeRegistry.Yaml.Reader

/-!
# The grammar of documents

A document declares attributes in groups and outside of them. A group has a namespace, and the keys
in it lie under that namespace. Declarations are numbered through the document, groups first.

A source either follows the grammar or gives every problem found in it.
-/

namespace AttributeRegistry

open Shape

/-- A group of declarations under a namespace. -/
structure Group where
  namespaceName : String
  attributes : List Attribute

/-- The contents of a document before its rules are checked. -/
structure Contents where
  version : Option String
  groups : List Group
  attributes : List Attribute

/-- No contents at all. -/
def Contents.empty : Contents :=
  ⟨none, [], []⟩

/-- The shape of a group; what it says about itself is for its readers. -/
def Group.shape : Shape Group :=
  .record "RawGroup" true
    (field "namespace" .text <|
     fieldOr "brief" none (.optional .text) <|
     field "attributes" (.list Attribute.shape) .nil)
    fun (namespaceName, _, attributes, ()) => ⟨namespaceName, attributes⟩

/-- The shape of a document. -/
def Contents.shape : Shape Contents :=
  .record "RawDocument" true
    (fieldOr "version" none (.optional .text) <|
     fieldOr "groups" [] (.list Group.shape) <|
     fieldOr "attributes" [] (.list Attribute.shape) .nil)
    fun (version, groups, attributes, ()) => ⟨version, groups, attributes⟩

namespace Source

/-- A problem of a document. -/
def problem (s : Source) (message : String) (context : List String) : Finding :=
  .new s.name .malformedSchema message context

/-- The contents of a source; a blank one has none. -/
def contents (s : Source) : Except String Contents :=
  if Text.isBlankText s.content then .ok .empty
  else match s.format with
    | .yaml => Yaml.decode Contents.shape s.content
    | .json => Json.decode Contents.shape s.content

/-- The declared version, or the problem with it. -/
def versionOf (s : Source) : Option String → Option Version × List Finding
  | none => (none, [])
  | some raw =>
    match Version.parse raw with
    | .ok v => (some v, [])
    | .error e => (none, [s.problem ("invalid registry version: " ++ e.message) []])

/-- The problem of a declaration, with the number it has in the document. -/
def misplaced (s : Source) (g : Group) (index : Nat) (a : Attribute) : List Finding :=
  if liesUnder g.namespaceName.toList a.key.toList then []
  else [s.problem
    ("attribute '" ++ a.key ++ "' is declared outside its group namespace '" ++ g.namespaceName
      ++ "'")
    ["declaration #" ++ toString index]]

/-- The problems of a group whose declarations are numbered from `start` on. -/
def groupProblems (s : Source) (start : Nat) (g : Group) : List Finding :=
  (if Text.isBlankText g.namespaceName then [s.problem "group namespace must not be empty" []]
    else [])
  ++ (g.attributes.zipIdx start).flatMap fun (a, index) => s.misplaced g index a

/-- The problems of groups whose declarations are numbered from `start` on. -/
def groupsProblems (s : Source) (start : Nat) : List Group → List Finding
  | [] => []
  | g :: gs => s.groupProblems start g ++ groupsProblems s (start + g.attributes.length) gs

/-- Every declaration with the number it has in the document. -/
def fragments (s : Source) (c : Contents) : List Fragment :=
  (c.groups.flatMap Group.attributes ++ c.attributes).zipIdx.map fun (a, index) =>
    ⟨a, ⟨s.name, index⟩⟩

/-- The document of a source, or every problem found in it. -/
def parse (s : Source) : Except (List Finding) Document :=
  match s.contents with
  | .error message => .error [s.problem message []]
  | .ok c =>
    let (version, versionProblems) := s.versionOf c.version
    match versionProblems ++ s.groupsProblems 0 c.groups with
    | [] => .ok ⟨s.name, version, s.fragments c⟩
    | problems => .error problems

end Source

end AttributeRegistry
