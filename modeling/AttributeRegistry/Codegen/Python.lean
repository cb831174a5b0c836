import AttributeRegistry.Codegen.Doc
import AttributeRegistry.Codegen.Profile

/-!
# Python

A class with one constant for each attribute, a documentation string behind each of them, and a
dictionary from every deprecated key to its replacement.

In a documentation string a backslash is written twice, and three quotes in a row have a backslash
before each, so that only the emitter's own quotes end it.
-/

namespace AttributeRegistry.Codegen.Python

/-- The indentation of the class's parts. -/
def indent : List Char :=
  "    ".toList

/-- Text inside a documentation string. -/
def escape (text : List Char) : List Char :=
  Text.replaceAll '"' ['"', '"'] "\\\"\\\"\\\"".toList
    (Text.replaceAll '\\' [] ['\\', '\\'] text)

/-- The line of a documentation string for one line of a text. -/
def docLine (line : List Char) : List Char :=
  if Text.allBlank line then [] else indent ++ escape (Text.trimEnd line)

/-- The lines of a documentation string for a text. -/
def docLines (text : List Char) : List (List Char) :=
  (Text.lines (Text.trim text)).map docLine

/-- The paragraph about the replacement. -/
def deprecation (d : Doc) : List (List Char) :=
  match d.replacement with
  | none => []
  | some r => [] :: docLines ("Deprecated: replaced by `" ++ r.key ++ "`.").toList

/-- The section of the notes. -/
def notes (d : Doc) : List (List Char) :=
  if d.noteParagraphs.isEmpty then []
  else [[], indent ++ "## Notes".toList]
    ++ d.noteParagraphs.flatMap fun paragraph => [] :: paragraph.flatMap docLines

/-- A section with one item for each text. -/
def listSection (title : String) (items : List (List Char)) : List (List Char) :=
  if items.isEmpty then []
  else [[], indent ++ "## ".toList ++ title.toList, []]
    ++ items.flatMap fun item => docLines ("- ".toList ++ item)

/-- The documentation string's lines, without the quotes around them. -/
def docstring (d : Doc) : List (List Char) :=
  docLines d.definition.brief.toList
    ++ deprecation d
    ++ notes d
    ++ listSection "Constraints" (d.constraints.map String.toList)
    ++ listSection "Examples" (d.examples.map fun e => ['\x60'] ++ e.toList ++ ['\x60'])

/-- The line of quotes that begins or ends a documentation string. -/
def quotes : List Char :=
  indent ++ "\"\"\"".toList

/-- The assignment of a constant. -/
def assignment (d : Doc) : List Char :=
  indent ++ (d.constant ++ " = \"" ++ d.definition.key ++ "\"").toList

/-- The lines of an attribute. -/
def constant (d : Doc) : List (List Char) :=
  [assignment d, quotes] ++ docstring d ++ [quotes]

/-- The deprecated keys with their replacements. -/
def replacements (ds : List Doc) : List (String × String) :=
  ds.filterMap fun d => d.replacement.map fun r => (d.definition.key, r.key)

/-- The dictionary of deprecated keys. -/
def dictionary (ds : List Doc) : List (List Char) :=
  let start := "DEPRECATED_ATTRIBUTES: dict[str, str] = \x7b"
  match replacements ds with
  | [] => [(start ++ "\x7d").toList]
  | rs => [start.toList]
    ++ rs.map (fun (key, new) => indent ++ ("\"" ++ key ++ "\": \"" ++ new ++ "\",").toList)
    ++ ["\x7d".toList]

/-- The lines of the class. -/
def classLines (ds : List Doc) (p : PythonProfile) : List (List Char) :=
  [("class " ++ p.className ++ ":").toList]
    ++ (if ds.isEmpty then [indent ++ "pass".toList] else [])
    ++ ds.flatMap fun d => [] :: constant d

/-- The lines of the module. -/
def lines (ds : List Doc) (v : Version) (p : PythonProfile) : List (List Char) :=
  [("# " ++ header).toList, ("# " ++ versionLine v).toList, []]
    ++ classLines ds p ++ [[]] ++ dictionary ds

/-- The module. -/
def emit (ds : List Doc) (v : Version) (p : PythonProfile) : List Char :=
  Text.unlines (lines ds v p)

end AttributeRegistry.Codegen.Python
