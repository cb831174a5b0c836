/-!
# Similarity of texts

How well a pattern fits a text that contains its characters in order. The score of an alignment adds
up, for every matched character, a fixed amount and a bonus for where it stands (at the beginning,
behind a separator, at a capital); a match right behind another has a bonus anywhere. A gap costs its
start and its length, but not the one in front of the first match. `similarity?` is the best score of
all alignments.

Upper and lower case are told apart if the pattern has a capital, and otherwise only cost a little.
-/

namespace AttributeRegistry.Text

/-! ## Bonuses by place -/

/-- The kinds of characters that matter for the bonus of a place. -/
inductive CharKind where
  | start | capital | letter | digit | hardSeparator | softSeparator
deriving DecidableEq, Repr

/-- The kind of a character; anything that is no ASCII separator, digit or capital is a letter, but a
null character counts as the start of a text. -/
def CharKind.of (c : Char) : CharKind :=
  if c = '\x00' then .start
  else if " /\\|()[]\x7b\x7d".toList.contains c then .hardSeparator
  else if ('!' ≤ c ∧ c ≤ '\'') ∨ ('*' ≤ c ∧ c ≤ '.') ∨ (':' ≤ c ∧ c ≤ '@') ∨ ('^' ≤ c ∧ c ≤ '\x60')
    ∨ c = '~' then .softSeparator
  else if c.isDigit then .digit
  else if c.isUpper then .capital
  else .letter

/-- The bonus of a place behind a character of one kind and at one of another. -/
def placeBonus (previous current : CharKind) : Int :=
  match previous, current with
  | .start, _ | .hardSeparator, _ => 8
  | .softSeparator, _ => 7
  | .letter, .capital | .digit, .capital => 6
  | _, _ => 0

/-- The bonuses of the places of a text whose first one follows `previous`. -/
def placeBonuses (previous : CharKind) : List Char → List Int
  | [] => []
  | c :: cs => placeBonus previous (.of c) :: placeBonuses (.of c) cs

/-- The bonuses of the places of a text; the first one counts double. -/
def bonuses (cs : List Char) : List Int :=
  match placeBonuses .start cs with
  | [] => []
  | b :: bs => 2 * b :: bs

/-! ## Alignments -/

/-- Whether a character of the text matches one of the pattern. -/
def charsMatch (exact : Bool) (c p : Char) : Bool :=
  if exact then c = p else c.toLower = p.toLower

/-- The scores of the best alignments of a part of the pattern that end at a place: with a match
there, or with a gap. -/
structure Cell where
  matched : Int
  gap : Int
deriving Inhabited

/-- A score no alignment has. -/
def noScore : Int :=
  -32768

/-- The cell of no alignment. -/
def Cell.none : Cell :=
  ⟨noScore, noScore⟩

/-- The cell of a place: `diagonal` is the one of the place before and of the pattern without its
last character, `left` the one of the place before. -/
def Cell.next (exact : Bool) (p c : Char) (bonus : Int) (diagonal left : Cell) : Cell :=
  let gap := max (left.matched - 4) (left.gap - 1)
  if charsMatch exact c p then
    let score : Int := if !exact && p != c then 14 else 16
    ⟨max (diagonal.matched + max bonus 4) (diagonal.gap + bonus) + score, gap⟩
  else ⟨noScore, gap⟩

/-- The cells of the places from `left` on; the diagonal cells are those of the row before. -/
def rowFrom (exact : Bool) (p : Char) (left : Cell) : List Char → List Int → List Cell → List Cell
  | c :: cs, b :: bs, d :: ds =>
    let cell := Cell.next exact p c b d left
    cell :: rowFrom exact p cell cs bs ds
  | _, _, _ => []

/-- The text from the first place on at which a character of the pattern can match, with the bonuses
and the cells of the row before. -/
def toFirstMatch (exact : Bool) (p : Char) :
    List Char → List Int → List Cell → List Char × List Int × List Cell
  | c :: cs, b :: bs, d :: ds =>
    if charsMatch exact c p then (c :: cs, b :: bs, d :: ds) else toFirstMatch exact p cs bs ds
  | _, _, _ => ([], [], [])

/-- The best match in a row of cells. -/
def bestMatch (cells : List Cell) : Int :=
  cells.foldl (fun best cell => max best cell.matched) noScore

/-- The score of the best alignment of a pattern with a text; the last row of cells is given. -/
def align (exact : Bool) : List Char → List Char → List Int → List Cell → Option Int
  | [], _, _, cells => some (bestMatch cells)
  | p :: ps, cs, bs, cells =>
    match toFirstMatch exact p cs bs cells with
    | (c :: cs, b :: bs, ds) =>
      let row := rowFrom exact p .none (c :: cs) (b :: bs) ds
      -- the next character of the pattern matches further right
      align exact ps cs bs row
    | _ => none

/-- How well a pattern fits a text, if it fits at all. -/
def similarity? (pattern text : String) : Option Int :=
  let exact := pattern.toList.any Char.isUpper
  let cs := text.toList
  if pattern.isEmpty then some 0
  else align exact pattern.toList cs (bonuses cs) (cs.map fun _ => ⟨noScore, 0⟩)

end AttributeRegistry.Text
