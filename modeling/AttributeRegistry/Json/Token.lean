import AttributeRegistry.Json.Basic
import AttributeRegistry.Json.Failure

/-!
# Strings, numbers and words of JSON

The readers of what has no parts. A string may hold any character but the control characters below
space; an escaped code point outside the basic plane is a pair of surrogates.

A number without fraction and exponent is an integer if it fits 64 bits (with a sign for a negative
one). Any other number is a double: the digits that fit 64 bits, times a power of ten, both rounded.
A negative zero is a double too.
-/

namespace AttributeRegistry.Json

/-- The blanks JSON allows between its tokens. -/
def isGap (c : Char) : Bool :=
  c = ' ' || c = '\n' || c = '\t' || c = '\r'

/-- Drops blanks. -/
def skipGap (cs : List Char) : List Char :=
  cs.dropWhile isGap

/-- The rest of a word whose first character was read. -/
def readWord : List Char → Reader Unit
  | [], cs => .ok ((), cs)
  | _ :: _, [] => failAt .eofInValue []
  | w :: ws, c :: cs =>
    if w = c then readWord ws cs else failAhead .expectedIdent (c :: cs) 1

/-! ## Strings -/

/-- The number of UTF-8 bytes of a text. -/
def byteLength (cs : List Char) : Nat :=
  cs.foldl (fun n c => n + c.utf8Size) 0

/-- What four hexadecimal digits stand for, and the text behind them. -/
def readHex (cs : List Char) : Except Failure (Nat × { r : List Char // r.length ≤ cs.length }) :=
  match cs with
  | a :: b :: c :: d :: rest =>
    match Text.hexValue? a, Text.hexValue? b, Text.hexValue? c, Text.hexValue? d with
    | some a, some b, some c, some d =>
      .ok (((a * 16 + b) * 16 + c) * 16 + d, ⟨rest, by simp; omega⟩)
    | _, _, _, _ => failAhead .invalidEscape cs 4
  | cs => if byteLength cs < 4 then failAt .eofInString [] else failAhead .invalidEscape cs 4

/-- The second surrogate of a pair whose first is `lead`. -/
def readTrail (lead : Nat) (cs : List Char) :
    Except Failure (Char × { r : List Char // r.length ≤ cs.length }) :=
  match cs with
  | [] => failAt .eofInString []
  | '\\' :: [] => failAt .eofInString []
  | '\\' :: 'u' :: cs' => do
    let (trail, ⟨rest, h⟩) ← readHex cs'
    if 0xDC00 ≤ trail ∧ trail ≤ 0xDFFF then
      return (Char.ofNat ((lead - 0xD800) * 0x400 + (trail - 0xDC00) + 0x10000),
        ⟨rest, by simp; omega⟩)
    else failAt .loneSurrogate rest
  | '\\' :: cs' => failAhead .unfinishedHexEscape cs' 1
  | cs => failAhead .unfinishedHexEscape cs 1

/-- The character an escape stands for; its backslash was read. -/
def readEscape (cs : List Char) :
    Except Failure (Char × { r : List Char // r.length ≤ cs.length }) :=
  match cs with
  | [] => failAt .eofInString []
  | 'u' :: cs' => do
    let (n, ⟨rest, h⟩) ← readHex cs'
    if 0xDC00 ≤ n ∧ n ≤ 0xDFFF then failAt .loneSurrogate rest
    else if 0xD800 ≤ n ∧ n ≤ 0xDBFF then
      let (c, ⟨rest', h'⟩) ← readTrail n rest
      return (c, ⟨rest', by simp; omega⟩)
    else return (Char.ofNat n, ⟨rest, by simp; omega⟩)
  | c :: cs' =>
    let plain (d : Char) : Except Failure (Char × { r : List Char // r.length ≤ (c :: cs').length }) :=
      .ok (d, ⟨cs', by simp⟩)
    if c = '"' ∨ c = '\\' ∨ c = '/' then plain c
    else if c = 'b' then plain '\x08'
    else if c = 'f' then plain '\x0c'
    else if c = 'n' then plain '\n'
    else if c = 'r' then plain '\r'
    else if c = 't' then plain '\t'
    else failAhead .invalidEscape (c :: cs') 1

/-- The characters of a string up to its closing quote; the opening one was read. -/
def readStringBody (cs : List Char) : Except Failure (List Char × List Char) :=
  match cs with
  | [] => failAt .eofInString []
  | '"' :: rest => .ok ([], rest)
  | '\\' :: cs' => do
    let (c, ⟨rest, _⟩) ← readEscape cs'
    let (body, rest) ← readStringBody rest
    return (c :: body, rest)
  | c :: cs' =>
    if c.toNat < 0x20 then failAhead .controlCharacter (c :: cs') 1
    else do
      let (body, rest) ← readStringBody cs'
      return (c :: body, rest)
termination_by cs.length
decreasing_by all_goals simp; try omega

/-- A string behind its opening quote. -/
def readString : Reader String := fun cs => do
  let (body, rest) ← readStringBody cs
  return (String.ofList body, rest)

/-! ## Numbers -/

/-- The value of a digit. -/
def digitValue (c : Char) : Nat :=
  c.toNat - 0x30

/-- Digits appended to a number as long as it stays below `2^64`. -/
def significand (n : Nat) : List Char → Nat × List Char
  | [] => (n, [])
  | c :: cs =>
    if c.isDigit ∧ 10 * n + digitValue c < Nat.pow 2 64 then significand (10 * n + digitValue c) cs
    else (n, c :: cs)

/-- `10 ^ n` as a double. -/
def powerOfTen (n : Nat) : Float :=
  Float.ofScientific 1 false n

/-- A double times a power of ten; nothing if it leaves the range of doubles. A power below the range
is reached in steps. -/
def scale : Nat → Float → Int → Option Float
  | 0, x, _ => some x
  | steps + 1, x, e =>
    if e.natAbs ≤ 308 then
      if 0 ≤ e then
        let y := x * powerOfTen e.natAbs
        if y.isInf then none else some y
      else some (x / powerOfTen e.natAbs)
    else if x == 0 then some x
    else if 0 ≤ e then none
    else scale steps (x / powerOfTen 308) (e + 308)

/-- The double with the given sign, significand and exponent. -/
def readScaled (positive : Bool) (n : Nat) (e : Int) (rest : List Char) :
    Except Failure (Json × List Char) :=
  match scale 4 (UInt64.ofNat n).toFloat e with
  | some x => .ok (.float (if positive then x else -x), rest)
  | none => failAt .numberOutOfRange rest

/-- Whether a text goes on with a digit. -/
def startsWithDigit : List Char → Bool
  | c :: _ => c.isDigit
  | [] => false

/-- The digits of an exponent; beyond 31 bits only its sign counts. -/
def readExponentDigits (positive : Bool) (n : Nat) (start : Int) (up : Bool) (e : Nat)
    (cs : List Char) : Except Failure (Json × List Char) :=
  match cs with
  | c :: rest =>
    if c.isDigit then
      let e' := 10 * e + digitValue c
      if e' < Nat.pow 2 31 then readExponentDigits positive n start up e' rest
      else if n ≠ 0 ∧ up then failAt .numberOutOfRange rest
      else .ok (.float (if positive then 0.0 else -0.0), rest.dropWhile Char.isDigit)
    else readScaled positive n (if up then start + e else start - e) (c :: rest)
  | [] => readScaled positive n (if up then start + e else start - e) []

/-- The exponent of a number, behind its letter. -/
def readExponent (positive : Bool) (n : Nat) (start : Int) (cs : List Char) :
    Except Failure (Json × List Char) :=
  let (up, digits) := match cs with
    | '+' :: rest => (true, rest)
    | '-' :: rest => (false, rest)
    | rest => (true, rest)
  match digits with
  | [] => failAt .eofInValue []
  | c :: rest =>
    if c.isDigit then readExponentDigits positive n start up (digitValue c) rest
    else failAhead .invalidNumber (c :: rest) 1

/-- What may follow the digits of a number that is a double already. -/
def readScale (positive : Bool) (n : Nat) (e : Int) (cs : List Char) :
    Except Failure (Json × List Char) :=
  match cs with
  | c :: rest => if c = 'e' ∨ c = 'E' then readExponent positive n e rest
    else readScaled positive n e (c :: rest)
  | [] => readScaled positive n e []

/-- The fraction of a number, behind its point. -/
def readFraction (positive : Bool) (n : Nat) (e : Int) (cs : List Char) :
    Except Failure (Json × List Char) :=
  let (n', rest) := significand n cs
  let places : Int := (cs.length - rest.length : Nat)
  if startsWithDigit rest then readScale positive n' (e - places) (rest.dropWhile Char.isDigit)
  else if places = 0 then
    if rest = [] then failAt .eofInValue [] else failAhead .invalidNumber rest 1
  else readScale positive n' (e - places) rest

/-- What may follow the digits before the point. -/
def readTail (positive : Bool) (n : Nat) (cs : List Char) : Except Failure (Json × List Char) :=
  match cs with
  | '.' :: rest => readFraction positive n 0 rest
  | c :: rest =>
    if c = 'e' ∨ c = 'E' then readExponent positive n 0 rest else .ok (whole, c :: rest)
  | [] => .ok (whole, [])
where
  /-- A number without fraction and exponent. -/
  whole : Json :=
    if positive then .int n
    else if n = 0 ∨ Nat.pow 2 63 < n then .float (-(UInt64.ofNat n).toFloat)
    else .int (-(n : Int))

/-- A number whose sign was read. -/
def readNumber (positive : Bool) (cs : List Char) : Except Failure (Json × List Char) :=
  match cs with
  | [] => failAt .eofInValue []
  | '0' :: rest =>
    if startsWithDigit rest then failAhead .invalidNumber rest 1 else readTail positive 0 rest
  | c :: _ =>
    if c.isDigit then
      let (n, rest) := significand 0 cs
      if startsWithDigit rest then
        -- the digits that no longer fit only count as places
        let more := rest.takeWhile Char.isDigit
        match rest.dropWhile Char.isDigit with
        | '.' :: rest => readFraction positive n more.length rest
        | rest => readScale positive n more.length rest
      else readTail positive n rest
    else failAhead .invalidNumber cs 1

end AttributeRegistry.Json
