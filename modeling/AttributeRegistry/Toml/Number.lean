import AttributeRegistry.Decimal.Parse
import AttributeRegistry.Toml.Item
import AttributeRegistry.Toml.Text

/-!
# Numbers of TOML

Integers are decimal, or hexadecimal, octal or binary behind a prefix; they fit 64 bits with a sign.
Single underscores may stand between digits. A decimal numeral with a fraction or an exponent is a
double.
-/

namespace AttributeRegistry.Toml

/-! ## Digits -/

/-- A hexadecimal digit. -/
def isHexDigit (c : Char) : Bool :=
  (Text.hexValue? c).isSome

/-- An octal digit. -/
def isOctalDigit (c : Char) : Bool :=
  '0' ≤ c && c ≤ '7'

/-- A binary digit. -/
def isBinaryDigit (c : Char) : Bool :=
  c = '0' || c = '1'

/-- The digits a text begins with, underscores between them left out. -/
def moreDigits (isDigit : Char → Bool) : Reader (List Char)
  | '_' :: c :: cs =>
    if isDigit c then do
      let (ds, rest) ← moreDigits isDigit cs
      return (c :: ds, rest)
    else expecting ["digit"] (commit (refuse (c :: cs)))
  | ['_'] => expecting ["digit"] (commit (refuse []))
  | c :: cs =>
    if isDigit c then do
      let (ds, rest) ← moreDigits isDigit cs
      return (c :: ds, rest)
    else .ok ([], c :: cs)
  | [] => .ok ([], [])

/-- One digit or more. -/
def someDigits (isDigit : Char → Bool) : Reader (List Char)
  | [] => refuse []
  | c :: cs =>
    if isDigit c then do
      let (ds, rest) ← moreDigits isDigit cs
      return (c :: ds, rest)
    else refuse (c :: cs)

/-- Decimal digits; behind a zero comes no other. -/
def wholeDigits : Reader (List Char)
  | '0' :: cs => .ok (['0'], cs)
  | cs => someDigits Char.isDigit cs

/-- The sign a numeral begins with. -/
def takeSign : List Char → List Char × List Char
  | '+' :: cs => (['+'], cs)
  | '-' :: cs => (['-'], cs)
  | cs => ([], cs)

/-- A sign and decimal digits. -/
def decimalWhole : Reader (List Char) := fun cs => do
  let (sign, rest) := takeSign cs
  let (ds, rest) ← labeled "integer" (wholeDigits rest)
  return (sign ++ ds, rest)

/-! ## Integers -/

/-- An integer that fits 64 bits with a sign. -/
def fitting (n : Int) : Except String Scalar :=
  if Int.pow 2 63 ≤ n then .error "number too large to fit in target type"
  else if n < -Int.pow 2 63 then .error "number too small to fit in target type"
  else .ok (.int n)

/-- The value of digits to a base. -/
def numeral (base : Nat) (ds : List Char) : Nat :=
  ds.foldl (fun n c => base * n + (Text.hexValue? c).getD 0) 0

/-- The value of a decimal numeral with a sign. -/
def signedNumeral : List Char → Int
  | '-' :: ds => -(numeral 10 ds : Int)
  | '+' :: ds => numeral 10 ds
  | ds => numeral 10 ds

/-- An integer behind a prefix of two characters. -/
def prefixed (label : String) (base : Nat) (isDigit : Char → Bool) : Reader Scalar := fun cs =>
  commit (check (fun ds => fitting (numeral base ds))
    (fun cs => labeled label (commit (someDigits isDigit (cs.drop 2)))) cs)

/-- An integer. -/
def integer : Reader Scalar := fun cs =>
  match cs with
  | '0' :: 'x' :: _ => prefixed "hexadecimal integer" 16 isHexDigit cs
  | '0' :: 'o' :: _ => prefixed "octal integer" 8 isOctalDigit cs
  | '0' :: 'b' :: _ => prefixed "binary integer" 2 isBinaryDigit cs
  | _ => do
    let (ds, rest) ← decimalWhole cs
    match fitting (signedNumeral ds) with
    | .ok v => return (v, rest)
    | .error cause => commit (refuseFor cause cs)

/-! ## Doubles -/

/-- A point and the digits behind it. -/
def fraction : Reader (List Char)
  | '.' :: cs => do
    let (ds, rest) ← expecting ["digit"] (commit (someDigits Char.isDigit cs))
    return ('.' :: ds, rest)
  | cs => refuse cs

/-- An exponent. -/
def exponent : Reader (List Char)
  | c :: cs =>
    if c = 'e' || c = 'E' then do
      let (sign, rest) := takeSign cs
      let (ds, rest) ← commit (someDigits Char.isDigit rest)
      return (c :: sign ++ ds, rest)
    else refuse (c :: cs)
  | [] => refuse []

/-- The numeral of a double: it has a fraction, an exponent, or both. -/
def decimalNumeral : Reader (List Char) := fun cs => do
  let (whole, rest) ← decimalWhole cs
  let (tail, rest) ← orElse (exponent rest) fun () => do
    let (f, rest) ← fraction rest
    let (e, rest) ← optionally exponent rest
    return (f ++ e.getD [], rest)
  return (whole ++ tail, rest)

/-- What stands for a double that is no number or infinite. -/
def specialFloat : Reader Scalar := fun cs =>
  let (sign, rest) := takeSign cs
  let signed (x : Float) : Scalar := .float (if sign = ['-'] then -x else x)
  match rest with
  | 'i' :: 'n' :: 'f' :: rest => .ok (signed (1 / 0), rest)
  | 'n' :: 'a' :: 'n' :: rest => .ok (signed (0 / 0), rest)
  | rest => refuse rest

/-- A double; a numeral too large for one is refused. -/
def float : Reader Scalar := fun cs =>
  labeled "floating-point number" <|
    orElse
      (do
        let (numeral, rest) ← decimalNumeral cs
        match Decimal.parse? numeral with
        | some x => if x == 1 / 0 then commit (refuse cs) else return (.float x, rest)
        | none => commit (refuse cs))
      fun () => specialFloat cs

end AttributeRegistry.Toml
