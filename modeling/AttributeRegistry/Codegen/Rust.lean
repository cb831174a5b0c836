import AttributeRegistry.Codegen.Doc

/-!
# Rust

One constant for each attribute, with its documentation in comment lines before it.
-/

namespace AttributeRegistry.Codegen.Rust

/-- The comment line of one line of a text. -/
def docLine (line : List Char) : List Char :=
  if Text.allBlank line then "///".toList else "/// ".toList ++ Text.trimEnd line

/-- The comment lines of a text. -/
def docLines (text : List Char) : List (List Char) :=
  (Text.lines (Text.trim text)).map docLine

/-- The section of the notes. -/
def notes (d : Doc) : List (List Char) :=
  if d.noteParagraphs.isEmpty then []
  else ["///".toList, "/// ## Notes".toList]
    ++ d.noteParagraphs.flatMap fun paragraph => "///".toList :: paragraph.flatMap docLines

/-- A section with one line for each item. -/
def listSection (title : String) (items : List (List Char)) : List (List Char) :=
  if items.isEmpty then []
  else ["///".toList, "/// ## ".toList ++ title.toList, "///".toList]
    ++ items.map fun item => "/// - ".toList ++ item

/-- The line that marks a deprecated constant. -/
def deprecation (d : Doc) : List (List Char) :=
  match d.replacement with
  | none => []
  | some r =>
    [("#[deprecated(note = \"\x7bnote: Replaced by `" ++ r.key
      ++ "`., reason: renamed, renamed_to: " ++ r.key ++ "\x7d\")]").toList]

/-- The declaration of a constant. -/
def declaration (d : Doc) : List Char :=
  ("pub const " ++ d.constant ++ ": &str = " ++ Text.quoted d.definition.key ++ ";").toList

/-- The lines of an attribute. -/
def constant (d : Doc) : List (List Char) :=
  docLines d.definition.brief.toList
    ++ notes d
    ++ listSection "Constraints" (d.constraints.map String.toList)
    ++ listSection "Examples" (d.examples.map fun e => ['\x60'] ++ e.toList ++ ['\x60'])
    ++ deprecation d
    ++ [declaration d]

/-- The lines of the module. -/
def lines (ds : List Doc) (v : Version) : List (List Char) :=
  [("// " ++ header).toList, ("// " ++ versionLine v).toList]
    ++ ds.flatMap fun d => [] :: constant d

/-- The module. -/
def emit (ds : List Doc) (v : Version) : List Char :=
  Text.unlines (lines ds v)

end AttributeRegistry.Codegen.Rust
