import AttributeRegistry.Json.Token

/-!
# Skipping JSON

What nobody asked for is skipped: it has to be JSON, but its numbers may be of any size, its escaped
code points need not be characters, and its arrays and objects may nest to any depth.
-/

namespace AttributeRegistry.Json

/-! ## Numbers and strings -/

/-- Behind an exponent's letter. -/
def skipExponent (cs : List Char) : Except Failure (Unit × List Char) :=
  let digits := match cs with
    | '+' :: rest => rest
    | '-' :: rest => rest
    | rest => rest
  if startsWithDigit digits then .ok ((), digits.dropWhile Char.isDigit)
  else failAhead .invalidNumber digits 1

/-- Behind the digits of a number, its exponent. -/
def skipScale (cs : List Char) : Except Failure (Unit × List Char) :=
  match cs with
  | 'e' :: rest => skipExponent rest
  | 'E' :: rest => skipExponent rest
  | rest => .ok ((), rest)

/-- A number whose sign was read. -/
def skipNumber (cs : List Char) : Except Failure (Unit × List Char) :=
  if !startsWithDigit cs then failAhead .invalidNumber cs 1
  else
    let behind := match cs with
      | '0' :: rest => rest
      | cs => cs.dropWhile Char.isDigit
    if startsWithDigit behind then failAhead .invalidNumber behind 1
    else match behind with
      | '.' :: rest =>
        if startsWithDigit rest then skipScale (rest.dropWhile Char.isDigit)
        else failAhead .invalidNumber rest 1
      | rest => skipScale rest

/-- A string behind its opening quote. -/
def skipString (cs : List Char) : Except Failure (Unit × List Char) :=
  match cs with
  | [] => failAt .eofInString []
  | '"' :: rest => .ok ((), rest)
  | '\\' :: [] => failAt .eofInString []
  | '\\' :: 'u' :: rest => do
    let (_, ⟨rest, _⟩) ← readHex rest
    skipString rest
  | '\\' :: c :: rest =>
    if "\"\\/bfnrt".toList.contains c then skipString rest
    else failAhead .invalidEscape (c :: rest) 1
  | c :: rest =>
    if c.toNat < 0x20 then failAt .controlCharacter (c :: rest) else skipString rest
termination_by cs.length
decreasing_by all_goals simp; try omega

/-! ## Arrays and objects -/

/-- What is open around a value. -/
inductive Frame where
  | array | object
deriving DecidableEq, Repr

/-- The failure of a text that ends inside an array or object. -/
def Frame.atEnd : Frame → SyntaxError
  | .array => .eofInList
  | .object => .eofInObject

/-- The failure of a text that does not go on behind an item or member. -/
def Frame.noEnd : Frame → SyntaxError
  | .array => .expectedItemEnd
  | .object => .expectedMemberEnd

/-- The character that closes an array or object. -/
def Frame.closing : Frame → Char
  | .array => ']'
  | .object => '\x7d'

/-- The name of a member and the colon behind it. -/
def skipName (cs : List Char) : Except Failure (Unit × List Char) :=
  match skipGap cs with
  | [] => failAt .eofInObject []
  | '"' :: rest => do
    let (_, rest) ← skipString rest
    match skipGap rest with
    | [] => failAt .eofInObject []
    | ':' :: rest => return ((), rest)
    | rest => failAhead .expectedColon rest 1
  | rest => failAhead .keyNotString rest 1

/-- What stands before the next value of a frame. -/
def skipLead (f : Frame) (cs : List Char) : Except Failure (Unit × List Char) :=
  match f with
  | .array => .ok ((), cs)
  | .object => skipName cs

/-- Where a skip is: before a value, or behind the opening bracket or a value of the innermost
frame. -/
inductive SkipState where
  | value
  | opened
  | behind

/-- Skips a value with all that is open around it; every two steps read a character. -/
def skipFrom : Nat → SkipState → List Frame → List Char → Except Failure (Unit × List Char)
  | 0, _, _, cs => .ok ((), cs)
  | steps + 1, .value, frames, cs =>
    let then' (skipped : Except Failure (Unit × List Char)) := do
      let (_, rest) ← skipped
      skipFrom steps .behind frames rest
    match skipGap cs with
    | [] => failAt .eofInValue []
    | 'n' :: rest => then' (readWord "ull".toList rest)
    | 't' :: rest => then' (readWord "rue".toList rest)
    | 'f' :: rest => then' (readWord "alse".toList rest)
    | '-' :: rest => then' (skipNumber rest)
    | '"' :: rest => then' (skipString rest)
    | '[' :: rest => skipFrom steps .opened (.array :: frames) rest
    | '\x7b' :: rest => skipFrom steps .opened (.object :: frames) rest
    | c :: rest =>
      if c.isDigit then then' (skipNumber (c :: rest)) else failAhead .expectedValue (c :: rest) 1
  | _, _, [], cs => .ok ((), cs)
  | steps + 1, state, f :: frames, cs =>
    let more (cs : List Char) := do
      let (_, rest) ← skipLead f cs
      skipFrom steps .value (f :: frames) rest
    match skipGap cs with
    | [] => failAt f.atEnd []
    | c :: rest =>
      if c = f.closing then skipFrom steps .behind frames rest
      else match state with
        | .opened => more (c :: rest)
        | _ => if c = ',' then more rest else failAhead f.noEnd (c :: rest) 1

/-- A value that nobody asked for. -/
def skipValue (cs : List Char) : Except Failure (Unit × List Char) :=
  skipFrom (2 * cs.length + 2) .value [] cs

end AttributeRegistry.Json
