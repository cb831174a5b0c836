import AttributeRegistry.Toml.Value

/-!
# Documents of TOML

A document is read line by line. Keys and values go into the table of the section they stand in; a
section is put into the document when the next one begins, or at the end. A header that names a
table which is only there because of the tables inside it takes up that table.
-/

namespace AttributeRegistry.Toml

/-- What a header says. -/
structure Header where
  path : List Key
  key : Key
  /-- Whether it begins one of several tables. -/
  several : Bool

/-- The names a header is made of. -/
def Header.names (h : Header) : List String :=
  (h.path ++ [h.key]).map Key.name

/-- How far a document is read. -/
structure Progress where
  /-- The finished sections. -/
  document : Table
  /-- The header of the current section; there is none before the first. -/
  header : Option Header
  /-- The current section. -/
  current : Table

namespace Progress

/-- The beginning of a document. -/
def start : Progress :=
  ⟨.empty .header, none, .empty .header⟩

/-- Puts a section into the table it belongs to. -/
def place (h : Header) (s t : Table) : Table :=
  if h.several then
    match t.find? h.key.name with
    | some (.tables ts) => t.insert h.key (.tables (ts ++ [s]))
    | _ => t.insert h.key (.tables [s])
  else t.insert h.key (.table s)

/-- The document with the current section. -/
def finish (p : Progress) : Except Clash Table :=
  match p.header with
  | none => .ok p.current
  | some h => do
    let ((), document) ← p.document.changeUnder (fun t => .ok ((), place h p.current t)) [] h.path
    return document

/-- The entries a section begins with: those of the table its header takes up, which leaves the
table it is in. -/
def takeUp (h : Header) (t : Table) : Except Clash (List (Key × Item) × Table) :=
  let taken := Clash.duplicate (writeKey h.key.name) (some (h.path.map Key.name))
  match t.find? h.key.name with
  | none => .ok ([], t)
  | some (.tables _) => if h.several then .ok ([], t) else .error taken
  | some (.table sub) =>
    if !h.several && sub.kind = .implied then .ok (sub.entries, t.erase h.key.name)
    else .error taken
  | some _ => .error taken

/-- Begins a section. -/
def enter (p : Progress) (h : Header) (span : Span) : Except Clash Progress := do
  let (entries, document) ← (← p.finish).changeUnder (takeUp h) [] h.path
  return ⟨document, some h, .mk .header (some span) entries⟩

/-- Puts a key and its value into the current section. -/
def add (p : Progress) (path : List Key) (k : Key) (i : Item) : Except Clash Progress := do
  let within := (p.header.map Header.names).getD []
  let t ← p.current.addAt false (some within) path k i
  let span := match t.span, i.span with
    | some whole, some part => some ⟨whole.start, part.stop⟩
    | whole, _ => whole
  return { p with current := .mk t.kind span t.entries }

end Progress

/-! ## Lines -/

/-- What follows the end of a line, in front of which blanks and a comment may stand. -/
def endLine (cs : List Char) : Except Failure (List Char) :=
  let rest := skipComment (skipBlanks cs)
  match rest with
  | [] => .ok []
  | _ =>
    match afterLineEnd? rest with
    | some rest => .ok rest
    | none => commit (refuse rest)

/-- The end of a line that holds something. -/
def endFilledLine (cs : List Char) : Except Failure (List Char) :=
  expecting ["newline", backquoted "#"] (endLine cs)

/-- A header, and the part of the text it is written in. -/
def header : Reader (Header × Span) := fun cs =>
  let (several, close, inside) := match cs with
    | '[' :: '[' :: rest => (true, ['\x5d', '\x5d'], rest)
    | _ => (false, ['\x5d'], cs.drop 1)
  if cs.length < 2 then refuse cs
  else commit do
    let ((path, k), rest) ← key inside
    match Text.dropBeginning? close rest with
    | none => expecting [backquoted ".", backquoted (String.ofList close)] (refuse rest)
    | some rest => return ((⟨path, k, several⟩, ⟨cs, rest⟩), ← endFilledLine rest)

/-- A line with a header. -/
def headerLine (p : Progress) : Reader Progress := fun cs =>
  labeled "table header" do
    let ((h, span), rest) ← header cs
    match p.enter h span with
    | .ok p => return (p, rest)
    | .error clash => commit (refuseFor clash.message cs)

/-- A line with a key and a value. -/
def pairLine (p : Progress) : Reader Progress := fun cs =>
  commit do
    let ((path, k), rest) ← key cs
    let (i, rest) ← value maxDepth (skipBlanks (← equals rest))
    let rest ← endFilledLine rest
    match p.add path k i with
    | .ok p => return (p, rest)
    | .error clash => refuseFor clash.message cs

/-- A line, from its first character that is no blank on. -/
def line (p : Progress) : Reader Progress := fun cs =>
  match cs with
  | '[' :: _ => headerLine p cs
  | c :: _ =>
    if c = '#' || c = '\n' then do return (p, ← endLine cs)
    else if c = '\r' then
      match afterLineEnd? cs with
      | some rest => .ok (p, rest)
      | none => refuse cs
    else pairLine p cs
  | [] => .ok (p, [])

/-- The lines of a text. -/
def lines (p : Progress) (cs : List Char) : Except Failure Progress :=
  match _h : skipBlanks cs with
  | [] => .ok p
  | c :: after => do
    let (p, rest) ← line p (c :: after)
    if rest.length ≤ after.length then lines p rest else refuse (c :: after)
termination_by cs.length
decreasing_by
  have := skipBlanks_length cs
  simp only [_h, List.length_cons] at this
  omega

/-- The document of a text; a mark of the byte order in front of it does not count. -/
def document (text : List Char) : Except Failure Table := do
  let p ← lines .start (match text with
    | '\ufeff' :: rest => rest
    | _ => text)
  match p.finish with
  | .ok t => return t
  | .error clash => refuseFor clash.message text

end AttributeRegistry.Toml
