import AttributeRegistry.Yaml.Property
import AttributeRegistry.Yaml.Scalar

/-!
# Tokens of YAML

A text as a list of tokens. Block structure shows in tokens of its own: a column further in than the
collection around it opens a block collection, one further out closes it.

A word can turn out to be the key of a mapping only when the colon behind it is seen. Until then it
is a *simple key*: its token waits in a queue, and the colon puts the token of a key, and of the
mapping it opens, in front of it. A simple key stays on one line and within 1024 bytes.

`Token.scan` gives the tokens up to the first failure, as far as they were certain before it.
-/

namespace AttributeRegistry.Yaml

/-- What a token is. -/
inductive TokenKind where
  | directive (d : Directive)
  | documentStart
  | documentEnd
  | streamEnd
  | blockSequenceStart
  | blockMappingStart
  | blockEnd
  | flowSequenceStart
  | flowSequenceEnd
  | flowMappingStart
  | flowMappingEnd
  | blockEntry
  | flowEntry
  | key
  | value
  | aliasName (name : List Char)
  | anchor (name : List Char)
  | tag (t : RawTag)
  | scalar (plain : Bool) (text : List Char)
deriving DecidableEq, Repr

/-- A token with the places where it begins and ends. -/
structure Token where
  kind : TokenKind
  start : Mark
  stop : Mark
deriving DecidableEq, Repr

/-- The token that may become the key of a mapping. -/
structure SimpleKey where
  /-- Whether nothing else is allowed where it stands. -/
  required : Bool
  /-- The number of its token. -/
  number : Nat
  mark : Mark

/-- The state of a scan. -/
structure Scan where
  cursor : Cursor
  /-- Tokens that are not certain yet. -/
  queue : List Token
  /-- The number of tokens that left the queue. -/
  left : Nat
  /-- The column of the innermost block collection; `-1` outside of all. -/
  indent : Int
  /-- The columns of the block collections around it. -/
  outer : List Int
  /-- Whether a simple key may begin here. -/
  keyAllowed : Bool
  /-- The simple key of the innermost flow collection, or of the block context. -/
  key : Option SimpleKey
  /-- Those of the flow collections around it. -/
  outerKeys : List (Option SimpleKey)

namespace Scan

/-- The state at the beginning of a text. -/
def start (text : List Char) : Scan :=
  ⟨⟨.start, text⟩, [], 0, -1, [], true, none, []⟩

/-- Whether the scan is inside a flow collection. -/
def inFlow (s : Scan) : Bool :=
  !s.outerKeys.isEmpty

/-- The place of the scan. -/
def mark (s : Scan) : Mark :=
  s.cursor.mark

/-- Puts a token at the end of the queue. -/
def push (s : Scan) (t : Token) : Scan :=
  { s with queue := s.queue ++ [t] }

/-- Puts a token into the queue, where it gets the given number. -/
def insert (s : Scan) (number : Nat) (t : Token) : Scan :=
  { s with queue := s.queue.take (number - s.left) ++ t :: s.queue.drop (number - s.left) }

/-- Puts a token at the end of the queue that ends at a cursor. -/
def pushTo (s : Scan) (kind : TokenKind) (cur : Cursor) : Scan :=
  { s.push ⟨kind, s.mark, cur.mark⟩ with cursor := cur }

/-- Puts the token of an indicator of some characters at the end of the queue. -/
def pushIndicator (s : Scan) (kind : TokenKind) (width : Nat) : Scan :=
  s.pushTo kind (s.cursor.skip width)

/-! ## Simple keys -/

/-- Forgets a simple key that became impossible. -/
def dropKey (required : Option SimpleKey → Bool) (s : Scan) (key : Option SimpleKey) :
    Except Failure (Option SimpleKey) :=
  if required key then
    match key with
    | some k =>
      if k.required then failWhile .simpleKey k.mark .noColon s.mark else .ok none
    | none => .ok none
  else .ok key

/-- Whether a simple key is on an earlier line or too far back. -/
def isStale (m : Mark) : Option SimpleKey → Bool
  | some k => k.mark.line < m.line || k.mark.index + 1024 < m.index
  | none => false

/-- Forgets the simple keys that are too far back, the outermost first. -/
def dropStaleKeys (s : Scan) : Except Failure Scan := do
  let outer ← s.outerKeys.reverse.mapM (dropKey (isStale s.mark) s)
  let key ← dropKey (isStale s.mark) s s.key
  return { s with key, outerKeys := outer.reverse }

/-- Forgets the innermost simple key. -/
def removeKey (s : Scan) : Except Failure Scan := do
  return { s with key := ← dropKey Option.isSome s s.key }

/-- Remembers that a simple key may begin here. -/
def saveKey (s : Scan) : Except Failure Scan := do
  if s.keyAllowed then
    let required := !s.inFlow && s.indent = s.mark.column
    let s ← s.removeKey
    return { s with key := some ⟨required, s.left + s.queue.length, s.mark⟩ }
  else return s

/-! ## Indentation -/

/-- Opens a block collection at a column further in. The token gets the given number, or goes to the
end of the queue. -/
def roll (s : Scan) (column : Nat) (number : Option Nat) (kind : TokenKind) (m : Mark) : Scan :=
  if !s.inFlow && s.indent < column then
    let s := { s with indent := column, outer := s.indent :: s.outer }
    match number with
    | some n => s.insert n ⟨kind, m, m⟩
    | none => s.push ⟨kind, m, m⟩
  else s

/-- Closes block collections up to the first one that is not further in than a column; `outer` are
the columns around the innermost one. -/
def closeTo (column : Int) (outer : List Int) (s : Scan) : Scan :=
  if s.indent ≤ column then { s with outer }
  else
    let s := s.push ⟨.blockEnd, s.mark, s.mark⟩
    match outer with
    | [] => { s with indent := -1, outer := [] }
    | i :: outer => closeTo column outer { s with indent := i }

/-- Closes the block collections further in than a column. -/
def unroll (s : Scan) (column : Int) : Scan :=
  if s.inFlow then s else closeTo column s.outer s

/-! ## Between tokens -/

/-- Skips blanks, comments and line breaks. Outside of flow collections a new line allows a simple
key, and where one is allowed a tab is none of the blanks. A byte order mark at the beginning of a
line is skipped like a blank. -/
def skipGap (flow allowed comment : Bool) (m : Mark) (cs : List Char) : Bool × Cursor :=
  match cs with
  | [] => (allowed, ⟨m, []⟩)
  | '\r' :: '\n' :: cs => skipGap flow (allowed || !flow) false (m.nextLine 2) cs
  | c :: cs =>
    if isBreak c then skipGap flow (allowed || !flow) false (m.nextLine c.utf8Size) cs
    else if comment || c = '#' then skipGap flow allowed true (m.next c) cs
    else if c = ' ' || (c = '\t' && (flow || !allowed)) || (c = '\ufeff' && m.column = 0) then
      skipGap flow allowed false (m.next c) cs
    else (allowed, ⟨m, c :: cs⟩)

/-- Moves on to the next token. -/
def toToken (s : Scan) : Scan :=
  let (keyAllowed, cursor) := skipGap s.inFlow s.keyAllowed false s.mark s.cursor.rest
  { s with keyAllowed, cursor }

/-! ## The kinds of tokens -/

/-- The end of the text: an unfinished line counts as ended. -/
def fetchEnd (s : Scan) : Except Failure Scan := do
  let m := s.mark
  let s := if m.column = 0 then s else { s with cursor := ⟨⟨m.index, m.line + 1, 0⟩, [] ⟩ }
  let s ← (s.unroll (-1)).removeKey
  return { s.pushIndicator .streamEnd 0 with keyAllowed := false }

/-- A directive. -/
def fetchDirective (s : Scan) : Except Failure Scan := do
  let s ← (s.unroll (-1)).removeKey
  let s := { s with keyAllowed := false }
  let (d, cur) ← readDirective s.cursor
  return s.pushTo (.directive d) cur

/-- The mark of a document's start or end. -/
def fetchDocumentMark (kind : TokenKind) (s : Scan) : Except Failure Scan := do
  let s ← (s.unroll (-1)).removeKey
  return { s.pushIndicator kind 3 with keyAllowed := false }

/-- The beginning of a flow collection. -/
def fetchFlowStart (kind : TokenKind) (s : Scan) : Except Failure Scan := do
  let s ← s.saveKey
  let s := { s with key := none, outerKeys := s.key :: s.outerKeys, keyAllowed := true }
  return s.pushIndicator kind 1

/-- The end of a flow collection. -/
def fetchFlowEnd (kind : TokenKind) (s : Scan) : Except Failure Scan := do
  let s ← s.removeKey
  let s := match s.outerKeys with
    | [] => s
    | key :: outerKeys => { s with key, outerKeys }
  return { s.pushIndicator kind 1 with keyAllowed := false }

/-- The comma between the items of a flow collection. -/
def fetchFlowEntry (s : Scan) : Except Failure Scan := do
  let s ← s.removeKey
  return { s.pushIndicator .flowEntry 1 with keyAllowed := true }

/-- The hyphen in front of an item of a block sequence. -/
def fetchBlockEntry (s : Scan) : Except Failure Scan := do
  if !s.inFlow && !s.keyAllowed then failAt .entryNotAllowed s.mark
  let s ← (s.roll s.mark.column none .blockSequenceStart s.mark).removeKey
  return { s.pushIndicator .blockEntry 1 with keyAllowed := true }

/-- The question mark in front of a key. -/
def fetchKey (s : Scan) : Except Failure Scan := do
  if !s.inFlow && !s.keyAllowed then failAt .keyNotAllowed s.mark
  let s ← (s.roll s.mark.column none .blockMappingStart s.mark).removeKey
  return { s.pushIndicator .key 1 with keyAllowed := !s.inFlow }

/-- The colon in front of a value. -/
def fetchValue (s : Scan) : Except Failure Scan := do
  match s.key with
  | some k =>
    let s := s.insert k.number ⟨.key, k.mark, k.mark⟩
    let s := s.roll k.mark.column (some k.number) .blockMappingStart k.mark
    return { s.pushIndicator .value 1 with key := none, keyAllowed := false }
  | none =>
    if !s.inFlow && !s.keyAllowed then failAt .valueNotAllowed s.mark
    let s := s.roll s.mark.column none .blockMappingStart s.mark
    return { s.pushIndicator .value 1 with keyAllowed := !s.inFlow }

/-- An anchor or alias. -/
def fetchName (activity : Activity) (kind : List Char → TokenKind) (s : Scan) :
    Except Failure Scan := do
  let s ← s.saveKey
  let (name, cur) ← readName activity s.cursor
  return { s.pushTo (kind name) cur with keyAllowed := false }

/-- A tag. -/
def fetchTag (s : Scan) : Except Failure Scan := do
  let s ← s.saveKey
  let (t, cur) ← readTag s.inFlow s.cursor
  return { s.pushTo (.tag t) cur with keyAllowed := false }

/-- A block scalar. -/
def fetchBlockScalar (folded : Bool) (s : Scan) : Except Failure Scan := do
  let s ← s.removeKey
  let (text, cur) ← readBlock folded s.indent s.cursor
  return { s.pushTo (.scalar false text) cur with keyAllowed := true }

/-- A quoted scalar. -/
def fetchQuoted (single : Bool) (s : Scan) : Except Failure Scan := do
  let s ← s.saveKey
  let (text, cur) ← readQuoted single s.cursor
  return { s.pushTo (.scalar false text) cur with keyAllowed := false }

/-- A plain scalar. -/
def fetchPlain (s : Scan) : Except Failure Scan := do
  let s ← s.saveKey
  let ((text, ended), cur) ← readPlain s.inFlow (s.indent + 1).toNat s.cursor
  return { s.pushTo (.scalar true text) cur with keyAllowed := ended }

/-- The characters a plain scalar cannot begin with, unless a word goes on behind a few of them. -/
def isIndicator (c : Char) : Bool :=
  "-?:,[]\x7b\x7d#&*!|>'\"%@`".toList.contains c

/-- Whether a plain scalar begins with `c` when `rest` follows it. -/
def startsPlain (flow : Bool) (c : Char) (rest : List Char) : Bool :=
  !(isBlank c || isBreak c || isIndicator c)
    || (c = '-' && !(rest.head?.any isBlank))
    || (!flow && (c = '?' || c = ':') && !atGap rest)

/-- The next token. -/
def fetch (s : Scan) : Except Failure Scan := do
  let s ← s.toToken.dropStaleKeys
  let s := s.unroll s.mark.column
  match s.cursor.rest with
  | [] => s.fetchEnd
  | c :: rest =>
    if s.mark.column = 0 && c = '%' then s.fetchDirective
    else if s.cursor.atDocumentMark '-' then s.fetchDocumentMark .documentStart
    else if s.cursor.atDocumentMark '.' then s.fetchDocumentMark .documentEnd
    else if c = '[' then s.fetchFlowStart .flowSequenceStart
    else if c = '\x7b' then s.fetchFlowStart .flowMappingStart
    else if c = ']' then s.fetchFlowEnd .flowSequenceEnd
    else if c = '\x7d' then s.fetchFlowEnd .flowMappingEnd
    else if c = ',' then s.fetchFlowEntry
    else if c = '-' && atGap rest then s.fetchBlockEntry
    else if c = '?' && (s.inFlow || atGap rest) then s.fetchKey
    else if c = ':' && (s.inFlow || atGap rest) then s.fetchValue
    else if c = '*' then s.fetchName .aliasName .aliasName
    else if c = '&' then s.fetchName .anchor .anchor
    else if c = '!' then s.fetchTag
    else if c = '|' && !s.inFlow then s.fetchBlockScalar false
    else if c = '>' && !s.inFlow then s.fetchBlockScalar true
    else if c = '\'' then s.fetchQuoted true
    else if c = '"' then s.fetchQuoted false
    else if startsPlain s.inFlow c rest then s.fetchPlain
    else failWhile .nextToken s.mark .noToken s.mark

/-! ## All tokens -/

/-- Whether the token of a number may still become a key. -/
def awaits (s : Scan) (number : Nat) : Bool :=
  (s.key :: s.outerKeys).any fun key => key.any fun k => k.number = number

/-- How many tokens at the head of the queue are certain; the first of them has the given number. -/
def certain (s : Scan) : Nat → List Token → Nat
  | _, [] => 0
  | number, _ :: ts => if s.awaits number then 0 else 1 + certain s (number + 1) ts

/-- The tokens that are certain, and the state without them. -/
def release (s : Scan) : List Token × Scan :=
  let n := s.certain s.left s.queue
  (s.queue.take n, { s with queue := s.queue.drop n, left := s.left + n })

/-- The tokens of at most some fetches. Each fetch but those at the end of the text reads a
character. -/
def run : Nat → Scan → List Token × Option Failure
  | 0, _ => ([], none)
  | steps + 1, s =>
    match s.fetch >>= dropStaleKeys with
    | .error f => ([], some f)
    | .ok s =>
      let (tokens, s) := s.release
      if tokens.any fun t => t.kind = .streamEnd then (tokens, none)
      else
        let (more, failure) := run steps s
        (tokens ++ more, failure)

end Scan

/-- The tokens of a text, and the failure behind them if there is one. -/
def Token.scan (text : List Char) : List Token × Option Failure :=
  Scan.run (text.length + 3) (.start text)

end AttributeRegistry.Yaml
