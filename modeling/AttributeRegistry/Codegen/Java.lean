import AttributeRegistry.Codegen.Doc
import AttributeRegistry.Codegen.Profile

/-!
# Java

A class with one constant for each attribute and its documentation in a comment before it.

Text in a comment is escaped so that it holds no markup and no backslash, and never ends the comment.
Backquotes in prose come in pairs around code, which becomes an element; a last one without a partner
stays as it is.
-/

namespace AttributeRegistry.Codegen.Java

/-! ## Text in comments -/

/-- One character of escaped text. -/
def escapeChar (c : Char) : List Char :=
  if c = '&' then "&amp;".toList
  else if c = '<' then "&lt;".toList
  else if c = '>' then "&gt;".toList
  else if c = '\\' then "&#92;".toList
  else [c]

/-- Escaped text. -/
def escape (text : List Char) : List Char :=
  Text.replaceAll '*' ['/'] "*&#47;".toList (text.flatMap escapeChar)

/-- The parts behind the first backquote with an element's tags between them; `opening` says that the
next backquote opens an element. -/
def spans : Bool → List (List Char) → List Char
  | _, [] => []
  | true, [part] => '\x60' :: part
  | true, part :: next :: parts => "<c>".toList ++ part ++ spans false (next :: parts)
  | false, part :: parts => "</c>".toList ++ part ++ spans true parts

/-- Prose with its code in elements. -/
def prose (text : List Char) : List Char :=
  match Text.splitOn '\x60' (escape (Text.trim text)) with
  | [] => []
  | part :: parts => part ++ spans true parts

/-! ## Comments -/

/-- A line of a comment. -/
def docLine (line : List Char) : List Char :=
  "     * ".toList ++ line

/-- A text inside an element. -/
def element (name : String) (text : List Char) : List Char :=
  ("<" ++ name ++ ">").toList ++ text ++ ("</" ++ name ++ ">").toList

/-- The notes, paragraph by paragraph on one line. -/
def notes (d : Doc) : List (List Char) :=
  if d.noteParagraphs.isEmpty then []
  else [element "h2" "Notes".toList
    ++ d.noteParagraphs.flatMap fun lines => element "p" (prose (Text.joinWith [' '] lines))]

/-- A section with one item for each text. -/
def listSection (title : String) (items : List (List Char)) : List (List Char) :=
  if items.isEmpty then []
  else [element "h2" title.toList, "<ul>".toList]
    ++ items.map (fun item => "  ".toList ++ element "li" item)
    ++ ["</ul>".toList]

/-- The sentence about the replacement. -/
def deprecation (d : Doc) : List (List Char) :=
  match d.replacement with
  | none => []
  | some r => [("@deprecated Replaced by \x7b@link #" ++ r.constant ++ "\x7d.").toList]

/-- The lines of the comment of an attribute. -/
def comment (d : Doc) : List (List Char) :=
  [element "p" (prose d.definition.brief.toList)]
    ++ notes d
    ++ listSection "Constraints" (d.constraints.map fun c => prose c.toList)
    ++ listSection "Examples" (d.examples.map fun e => element "c" (escape e.toList))
    ++ deprecation d

/-! ## The class -/

/-- The declaration of a constant. -/
def declaration (d : Doc) : List Char :=
  ("    public static final String " ++ d.constant ++ " = \"" ++ d.definition.key ++ "\";").toList

/-- The lines of an attribute. -/
def constant (d : Doc) : List (List Char) :=
  ["    /**".toList] ++ (comment d).map docLine ++ ["     */".toList]
    ++ (if d.replacement.isSome then ["    @Deprecated".toList] else [])
    ++ [declaration d]

/-- The lines of the file. -/
def lines (ds : List Doc) (v : Version) (p : JavaProfile) : List (List Char) :=
  [("// " ++ header).toList, ("// " ++ versionLine v).toList, [],
    ("package " ++ p.package ++ ";").toList, [],
    ("public final class " ++ p.className ++ " \x7b").toList]
    ++ ds.flatMap (fun d => constant d ++ [[]])
    ++ [("    private " ++ p.className ++ "() \x7b\x7d").toList, "\x7d".toList]

/-- The file. -/
def emit (ds : List Doc) (v : Version) (p : JavaProfile) : List Char :=
  Text.unlines (lines ds v p)

end AttributeRegistry.Codegen.Java
