import AttributeRegistry.Yaml.Failure

/-!
# Characters of YAML

A cursor is a place in a text together with the text from there on. Readers take a cursor and give
back the one behind what they read. Line breaks come in five forms; a carriage return followed by a
line feed is one break.
-/

namespace AttributeRegistry.Yaml

/-- A place and the text from there on. -/
structure Cursor where
  mark : Mark
  rest : List Char
deriving Inhabited

/-! ## Classes of characters -/

/-- A space or a tab. -/
def isBlank (c : Char) : Bool :=
  c = ' ' || c = '\t'

/-- The text a line break character stands for: most of them for a line feed. -/
def breakText? (c : Char) : Option (List Char) :=
  if c = '\n' ∨ c = '\r' ∨ c.toNat = 0x85 then some ['\n']
  else if c.toNat = 0x2028 ∨ c.toNat = 0x2029 then some [c]
  else none

/-- Whether a character breaks the line. -/
def isBreak (c : Char) : Bool :=
  (breakText? c).isSome

/-- Whether a text goes on with a blank or a line break, or ends. -/
def atGap : List Char → Bool
  | [] => true
  | c :: _ => isBlank c || isBreak c

/-- Whether a text goes on with a line break, or ends. -/
def atLineEnd : List Char → Bool
  | [] => true
  | c :: _ => isBreak c

/-- The characters of anchors, tag handles and directive names. -/
def isNameChar (c : Char) : Bool :=
  c.isAlphanum || c = '_' || c = '-'

/-- The characters any text may hold. -/
def isAllowed (c : Char) : Bool :=
  let n := c.toNat
  n = 0x09 || n = 0x0A || n = 0x0D || (0x20 ≤ n && n ≤ 0x7E) || n = 0x85
    || (0xA0 ≤ n && n ≤ 0xFFFD) || 0x10000 ≤ n

/-- The number of bytes before the first character that is not allowed, if there is one. -/
def findForbidden (offset : Nat) : List Char → Option Nat
  | [] => none
  | c :: cs => if isAllowed c then findForbidden (offset + c.utf8Size) cs else some offset

/-! ## Moving on -/

namespace Cursor

/-- The cursor some characters further along the line. -/
def skip (cur : Cursor) (n : Nat) : Cursor :=
  ⟨cur.mark.past (cur.rest.take n), cur.rest.drop n⟩

/-- The characters satisfying `p` ahead, and the cursor behind them. None of them breaks a line. -/
def takeWhile (cur : Cursor) (p : Char → Bool) : List Char × Cursor :=
  let taken := cur.rest.takeWhile p
  (taken, cur.skip taken.length)

/-- The cursor behind the blanks ahead. -/
def skipBlanks (cur : Cursor) : Cursor :=
  (cur.takeWhile isBlank).2

/-- The text of the line break ahead, if there is one, and the cursor behind it. -/
def takeBreak (cur : Cursor) : List Char × Cursor :=
  match cur.rest with
  | '\r' :: '\n' :: rest => (['\n'], ⟨cur.mark.nextLine 2, rest⟩)
  | c :: rest =>
    match breakText? c with
    | some text => (text, ⟨cur.mark.nextLine c.utf8Size, rest⟩)
    | none => ([], cur)
  | [] => ([], cur)

/-- The cursor at the end of the line, if nothing but blanks and a comment are ahead of it. -/
def skipComment (cur : Cursor) : Cursor :=
  let cur := cur.skipBlanks
  match cur.rest with
  | '#' :: _ => (cur.takeWhile fun c => !isBreak c).2
  | _ => cur

/-- Whether three times a character stand alone at the beginning of the line: the mark of a
document's start or end. -/
def atDocumentMark (cur : Cursor) (c : Char) : Bool :=
  cur.mark.column = 0 &&
    match cur.rest with
    | x :: y :: z :: rest => x = c && y = c && z = c && atGap rest
    | _ => false

end Cursor

end AttributeRegistry.Yaml
