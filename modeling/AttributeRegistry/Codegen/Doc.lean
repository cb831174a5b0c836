import AttributeRegistry.Codegen.Constant
import AttributeRegistry.Validation

/-!
# What generated modules say

The parts of an attribute's documentation, the same for every target: its constant, its notes by
paragraphs, its constraints as sentences, its examples as literals, and what replaces it.

A paragraph of the notes is a run of lines that are not blank.
-/

namespace AttributeRegistry.Codegen

/-- The first line of every generated file. -/
def header : String :=
  "DO NOT EDIT, this is an auto-generated file"

/-- The line with the registry's version. -/
def versionLine (v : Version) : String :=
  "Registry version: " ++ v.text

/-- The replacement of a deprecated attribute. -/
structure Replacement where
  key : String
  constant : String
deriving DecidableEq, Repr

/-- What is said about an attribute. -/
structure Doc where
  definition : Attribute
  constant : String
  constraints : List String
  examples : List String
  replacement : Option Replacement

/-- What is said about an attribute. -/
def Doc.ofAttribute (a : Attribute) : Doc :=
  { definition := a
    constant := constantName a.key
    constraints := a.constraints.map Constraint.describe
    examples := a.examples.map Example.displayText
    replacement := a.replacement?.map fun key => ⟨key, constantName key⟩ }

/-- What is said about the attributes of a registry, in the order of their keys. -/
def docs (v : ValidRegistry) : List Doc :=
  v.registry.attributes.map Doc.ofAttribute

/-! ## Paragraphs -/

/-- The runs of lines that are not blank. -/
def runs : List (List Char) → List (List (List Char))
  | [] => []
  | line :: rest =>
    if Text.allBlank line then runs rest
    else match rest with
      | [] => [[line]]
      | next :: _ =>
        if Text.allBlank next then [line] :: runs rest
        else match runs rest with
          | [] => [[line]]
          | run :: more => (line :: run) :: more

/-- The paragraphs of a text, without the blanks its lines end with. -/
def paragraphs (text : List Char) : List (List (List Char)) :=
  runs ((Text.lines (Text.trim text)).map Text.trimEnd)

/-- The paragraphs of the notes. -/
def Doc.noteParagraphs (d : Doc) : List (List (List Char)) :=
  match d.definition.notes with
  | some notes => paragraphs notes.toList
  | none => []

end AttributeRegistry.Codegen
