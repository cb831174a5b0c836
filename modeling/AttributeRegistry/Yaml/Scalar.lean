import AttributeRegistry.Text.Hex
import AttributeRegistry.Yaml.Cursor

/-!
# Scalars of YAML

The three ways to write a scalar. A plain scalar ends where an indicator begins. A quoted scalar ends
at its quote; a line break in either of them becomes a space, or is dropped before another one. A
block scalar keeps the lines that are indented, folded or not.

Readers of scalars that go over several lines take a number of steps that the length of the text
bounds: each step reads at least one character.
-/

namespace AttributeRegistry.Yaml

/-! ## Between the words of a scalar -/

/-- What stands between two words: blanks, or a line break and the line breaks behind it. -/
structure Gap where
  blanks : List Char
  lineBreak : Option (List Char)
  more : List Char

namespace Gap

/-- Nothing between two words. -/
def empty : Gap :=
  ⟨[], none, []⟩

/-- The gap behind an escaped line break, which stands for nothing. -/
def escapedBreak : Gap :=
  ⟨[], some [], []⟩

/-- Blanks at the beginning of a line do not count. -/
def addBlank (g : Gap) (c : Char) : Gap :=
  if g.lineBreak.isSome then g else { g with blanks := g.blanks ++ [c] }

/-- Adds a line break. -/
def addBreak (g : Gap) (text : List Char) : Gap :=
  match g.lineBreak with
  | none => ⟨[], some text, []⟩
  | some _ => { g with more := g.more ++ text }

/-- The text a gap stands for: a single line feed is folded into a space. -/
def text (g : Gap) : List Char :=
  match g.lineBreak with
  | none => g.blanks
  | some ['\n'] => if g.more = [] then [' '] else g.more
  | some first => first ++ g.more

end Gap

/-- Reads blanks and line breaks. A tab before the column `indent` of a further line is refused. -/
def readGap (since : Mark) (indent : Nat) (g : Gap) (m : Mark) (cs : List Char) :
    Except Failure (Gap × Cursor) :=
  match cs with
  | [] => .ok (g, ⟨m, []⟩)
  | '\r' :: '\n' :: cs => readGap since indent (g.addBreak ['\n']) (m.nextLine 2) cs
  | c :: cs =>
    if isBlank c then
      if c = '\t' ∧ g.lineBreak.isSome ∧ m.column < indent then
        failWhile .plainScalar since .tabInScalar m
      else readGap since indent (g.addBlank c) (m.next c) cs
    else match breakText? c with
      | some text => readGap since indent (g.addBreak text) (m.nextLine c.utf8Size) cs
      | none => .ok (g, ⟨m, c :: cs⟩)

/-! ## Plain scalars -/

/-- The characters that end a plain scalar inside flow collections. -/
def isFlowIndicator (c : Char) : Bool :=
  c = ',' || c = '[' || c = ']' || c = '\x7b' || c = '\x7d'

/-- Whether a colon before this text can neither end a word nor belong to it. -/
def atStrayColon : List Char → Bool
  | c :: _ => isFlowIndicator c || c = '?'
  | [] => false

/-- One word of a plain scalar. -/
def plainWord (flow : Bool) (since m : Mark) (cs : List Char) :
    Except Failure (List Char × Cursor) :=
  match cs with
  | [] => .ok ([], ⟨m, []⟩)
  | c :: rest =>
    if isBlank c || isBreak c then .ok ([], ⟨m, cs⟩)
    else if flow && c = ':' && atStrayColon rest then
      failWhile .plainScalar since .colonInScalar m
    else if (c = ':' && atGap rest) || (flow && isFlowIndicator c) then .ok ([], ⟨m, cs⟩)
    else do
      let (word, cur) ← plainWord flow since (m.next c) rest
      return (c :: word, cur)

/-- The words of a plain scalar that follow a gap, and whether it ends with a line break. -/
def plainWords (flow : Bool) (indent : Nat) (since : Mark) :
    Nat → Gap → Cursor → Except Failure ((List Char × Bool) × Cursor)
  | 0, gap, cur => .ok (([], gap.lineBreak.isSome), cur)
  | steps + 1, gap, cur =>
    if cur.atDocumentMark '-' || cur.atDocumentMark '.' || cur.rest.head? = some '#' then
      .ok (([], gap.lineBreak.isSome), cur)
    else do
      let (word, behind) ← plainWord flow since cur.mark cur.rest
      let joined := if word = [] then [] else gap.text ++ word
      let ended := word = [] && gap.lineBreak.isSome
      match behind.rest with
      | c :: _ =>
        if isBlank c || isBreak c then
          let (next, cur) ← readGap since indent .empty behind.mark behind.rest
          if !flow && cur.mark.column < indent then
            return ((joined, next.lineBreak.isSome), cur)
          else
            let ((text, ended), cur) ← plainWords flow indent since steps next cur
            return ((joined ++ text, ended), cur)
        else return ((joined, ended), behind)
      | [] => return ((joined, ended), behind)

/-- A plain scalar, and whether a line break follows it. -/
def readPlain (flow : Bool) (indent : Nat) (cur : Cursor) :
    Except Failure ((List Char × Bool) × Cursor) :=
  plainWords flow indent cur.mark cur.rest.length .empty cur

/-! ## Quoted scalars -/

/-- The character a one-letter escape stands for. -/
def escaped? (c : Char) : Option Char :=
  match c with
  | '0' => some '\x00'
  | 'a' => some '\x07'
  | 'b' => some '\x08'
  | 't' | '\t' => some '\t'
  | 'n' => some '\n'
  | 'v' => some '\x0b'
  | 'f' => some '\x0c'
  | 'r' => some '\r'
  | 'e' => some '\x1b'
  | ' ' | '"' | '/' | '\\' => some c
  | 'N' => some (Char.ofNat 0x85)
  | '_' => some (Char.ofNat 0xA0)
  | 'L' => some (Char.ofNat 0x2028)
  | 'P' => some (Char.ofNat 0x2029)
  | _ => none

/-- The number of hexadecimal digits behind the letter of an escape. -/
def escapeDigits (c : Char) : Nat :=
  if c = 'x' then 2 else if c = 'u' then 4 else if c = 'U' then 8 else 0

/-- The character an escape stands for; `c` is its letter, `cs` what follows it, `m` the place of the
backslash. -/
def readEscape (since m : Mark) (c : Char) (cs : List Char) : Except Failure Char :=
  match escaped? c with
  | some d => .ok d
  | none =>
    let width := escapeDigits c
    if width = 0 then failWhile .escapeSequence since .unknownEscape m
    else if cs.length < width then failWhile .escapeSequence since .noHexDigit (m.ahead 2)
    else match Text.hexNumber? (cs.take width) with
      | none => failWhile .escapeSequence since .noHexDigit (m.ahead 2)
      | some n =>
        if (0xD800 ≤ n ∧ n ≤ 0xDFFF) ∨ 0x10FFFF < n then
          failWhile .escapeSequence since .noCharacter (m.ahead 2)
        else .ok (Char.ofNat n)

/-- One word of a quoted scalar, and whether it ends with an escaped line break. -/
def quotedWord (single : Bool) (since m : Mark) (cs : List Char) :
    Except Failure ((List Char × Bool) × Cursor) :=
  match cs with
  | [] => .ok (([], false), ⟨m, []⟩)
  | c :: rest =>
    if isBlank c || isBreak c then .ok (([], false), ⟨m, cs⟩)
    else if single then
      match c, rest with
      | '\'', '\'' :: rest => do
        let ((word, b), cur) ← quotedWord single since (m.ahead 2) rest
        return (('\'' :: word, b), cur)
      | '\'', _ => .ok (([], false), ⟨m, cs⟩)
      | c, rest => do
        let ((word, b), cur) ← quotedWord single since (m.next c) rest
        return ((c :: word, b), cur)
    else if c = '"' then .ok (([], false), ⟨m, cs⟩)
    else if c = '\\' then
      match rest with
      | [] => failWhile .escapeSequence since .unknownEscape m
      | e :: rest =>
        if isBreak e then .ok (([], true), (Cursor.mk (m.next c) (e :: rest)).takeBreak.2)
        else do
          let d ← readEscape since m e rest
          let width := escapeDigits e
          let ((word, b), cur) ← quotedWord single since (m.ahead (2 + width)) (rest.drop width)
          return ((d :: word, b), cur)
    else do
      let ((word, b), cur) ← quotedWord single since (m.next c) rest
      return ((c :: word, b), cur)
termination_by cs.length
decreasing_by all_goals simp_all; try omega

/-- The words of a quoted scalar up to its closing quote. -/
def quotedWords (single : Bool) (since : Mark) :
    Nat → Cursor → Except Failure (List Char × Cursor)
  | 0, cur => failWhile .quotedScalar since .endInScalar cur.mark
  | steps + 1, cur =>
    if cur.atDocumentMark '-' || cur.atDocumentMark '.' then
      failWhile .quotedScalar since .documentMarkInScalar cur.mark
    else if cur.rest = [] then failWhile .quotedScalar since .endInScalar cur.mark
    else do
      let ((word, escapedBreak), cur) ← quotedWord single since cur.mark cur.rest
      if cur.rest.head? = some (if single then '\'' else '"') then return (word, cur.skip 1)
      let start : Gap := if escapedBreak then .escapedBreak else .empty
      let (gap, cur) ← readGap since 0 start cur.mark cur.rest
      let (text, cur) ← quotedWords single since steps cur
      return (word ++ gap.text ++ text, cur)

/-- A quoted scalar. -/
def readQuoted (single : Bool) (cur : Cursor) : Except Failure (List Char × Cursor) :=
  quotedWords single cur.mark cur.rest.length (cur.skip 1)

/-! ## Block scalars -/

/-- What becomes of the line breaks a block scalar ends with. -/
inductive Chomping where
  | strip | clip | keep
deriving DecidableEq, Repr

/-- The chomping an indicator asks for. -/
def chomping? (c : Char) : Option Chomping :=
  if c = '+' then some .keep else if c = '-' then some .strip else none

/-- The indentation an indicator asks for. -/
def readIncrement (since : Mark) (cur : Cursor) : Except Failure (Option Nat × Cursor) :=
  match cur.rest with
  | c :: _ =>
    if c = '0' then failWhile .blockScalar since .zeroIndentation cur.mark
    else if c.isDigit then .ok (some (c.toNat - 0x30), cur.skip 1)
    else .ok (none, cur)
  | [] => .ok (none, cur)

/-- The indicator of chomping, if there is one. -/
def readChomping (cur : Cursor) : Option Chomping × Cursor :=
  match cur.rest.head?.bind chomping? with
  | some c => (some c, cur.skip 1)
  | none => (none, cur)

/-- The indicators behind the one that starts a block scalar, in either order. -/
def readIndicators (since : Mark) (cur : Cursor) :
    Except Failure ((Chomping × Option Nat) × Cursor) :=
  match readChomping cur with
  | (some c, cur) => do
    let (increment, cur) ← readIncrement since cur
    return ((c, increment), cur)
  | (none, cur) => do
    match ← readIncrement since cur with
    | (none, cur) => return ((.clip, none), cur)
    | (some n, cur) =>
      let (c, cur) := readChomping cur
      return ((c.getD .clip, some n), cur)

/-- Reads indentation and empty lines; `indent` is zero as long as the indentation is not known, and
`widest` the widest indentation seen. -/
def readIndentation (since : Mark) (indent widest : Nat) (breaks : List Char) (m : Mark)
    (cs : List Char) : Except Failure ((Nat × List Char) × Cursor) :=
  let inside := indent = 0 || m.column < indent
  let widest' := max widest m.column
  match cs with
  | [] => .ok ((widest', breaks), ⟨m, []⟩)
  | '\r' :: '\n' :: cs =>
    readIndentation since indent widest' (breaks ++ ['\n']) (m.nextLine 2) cs
  | c :: cs =>
    if inside && c = ' ' then readIndentation since indent widest breaks (m.next c) cs
    else if inside && c = '\t' then failWhile .blockScalar since .tabInIndentation m
    else match breakText? c with
      | some text => readIndentation since indent widest' (breaks ++ text) (m.nextLine c.utf8Size) cs
      | none => .ok ((widest', breaks), ⟨m, c :: cs⟩)

/-- The line breaks before the next line of a block scalar. -/
structure Pending where
  /-- The break that ended the line before. -/
  first : List Char
  /-- The breaks of empty lines. -/
  more : List Char
  /-- Whether the line before began with a blank. -/
  indented : Bool

/-- What pending line breaks stand for before a line: in a folded scalar, a line feed between two
lines that do not begin with a blank is folded. -/
def Pending.text (p : Pending) (folded blank : Bool) : List Char :=
  if folded && p.first = ['\n'] && !p.indented && !blank then
    (if p.more = [] then [' '] else []) ++ p.more
  else p.first ++ p.more

/-- The lines of a block scalar, and the line breaks it ends with. -/
def blockLines (folded : Bool) (indent : Nat) (since : Mark) :
    Nat → Pending → Cursor → Except Failure ((List Char × Pending) × Cursor)
  | 0, p, cur => .ok (([], p), cur)
  | steps + 1, p, cur =>
    match cur.rest with
    | [] => .ok (([], p), cur)
    | c :: _ =>
      if cur.mark.column ≠ indent then .ok (([], p), cur)
      else do
        let (line, cur) := cur.takeWhile fun c => !isBreak c
        let (first, cur) := cur.takeBreak
        let ((_, more), cur) ← readIndentation since indent 0 [] cur.mark cur.rest
        let ((text, last), cur) ← blockLines folded indent since steps ⟨first, more, isBlank c⟩ cur
        return ((p.text folded (isBlank c) ++ line ++ text, last), cur)

/-- A block scalar inside a collection of the given indentation, which is `-1` outside of all. -/
def readBlock (folded : Bool) (outer : Int) (cur : Cursor) :
    Except Failure (List Char × Cursor) := do
  let since := cur.mark
  let ((chomping, increment), cur) ← readIndicators since (cur.skip 1)
  let cur := cur.skipComment
  if !atLineEnd cur.rest then failWhile .blockScalar since .lineNotEnded cur.mark
  let (_, cur) := cur.takeBreak
  let given : Nat := match increment with
    | some n => outer.toNat + n
    | none => 0
  let ((widest, breaks), cur) ← readIndentation since given 0 [] cur.mark cur.rest
  let indent := if given = 0 then max (max widest (outer + 1).toNat) 1 else given
  let ((text, last), cur) ←
    blockLines folded indent since (cur.rest.length + 1) ⟨[], breaks, false⟩ cur
  let ending := match chomping with
    | .strip => []
    | .clip => last.first
    | .keep => last.first ++ last.more
  return (text ++ ending, cur)

end AttributeRegistry.Yaml
