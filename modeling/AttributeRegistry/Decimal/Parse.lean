/-!
# Reading decimals

The double nearest to a decimal numeral: digits with at most one point, and an exponent. Numerals
beyond the range of doubles are infinite, those below it zero; the size of the exponent is compared
before any power is computed.
-/

namespace AttributeRegistry.Decimal

/-- The value of a text of digits. -/
def digitsValue (cs : List Char) : Nat :=
  cs.foldl (fun n c => 10 * n + (c.toNat - 0x30)) 0

/-- The double nearest to `digits · 10^exponent`. -/
def nearest (digits : Nat) (exponent : Int) : Float :=
  if digits = 0 then 0
  else
    let size : Int := (Nat.toDigits 10 digits).length + exponent
    if 400 < size then Float.ofScientific 1 false 400
    else if size < -400 then 0
    else if exponent < 0 then Float.ofScientific digits true exponent.natAbs
    else Float.ofScientific digits false exponent.natAbs

/-- A sign in front of a text. -/
def takeSign : List Char → Bool × List Char
  | '-' :: cs => (true, cs)
  | '+' :: cs => (false, cs)
  | cs => (false, cs)

/-- The integer a text of digits stands for, with a sign in front or not, if it fits 64 bits. -/
def int64? (cs : List Char) : Option Int :=
  let (negative, digits) := takeSign cs
  let n : Int := digitsValue digits
  let n := if negative then -n else n
  if digits.isEmpty || !digits.all Char.isDigit then none
  else if -Int.pow 2 63 ≤ n ∧ n < Int.pow 2 63 then some n
  else none

/-- The exponent a numeral ends with; no letter stands for no exponent. -/
def exponent? : List Char → Option Int
  | [] => some 0
  | c :: cs =>
    if c = 'e' ∨ c = 'E' then
      let (negative, digits) := takeSign cs
      if digits.isEmpty || !digits.all Char.isDigit then none
      else some (if negative then -(digitsValue digits : Int) else digitsValue digits)
    else none

/-- The double nearest to a numeral: a sign, digits with at most one point, an exponent; there is at
least one digit. -/
def parse? (cs : List Char) : Option Float := do
  let (negative, cs) := takeSign cs
  let whole := cs.takeWhile Char.isDigit
  let (fraction, rest) := match cs.dropWhile Char.isDigit with
    | '.' :: cs => (cs.takeWhile Char.isDigit, cs.dropWhile Char.isDigit)
    | cs => ([], cs)
  if whole.isEmpty && fraction.isEmpty then none
  let e ← exponent? rest
  let x := nearest (digitsValue (whole ++ fraction)) (e - fraction.length)
  return if negative then -x else x

end AttributeRegistry.Decimal
