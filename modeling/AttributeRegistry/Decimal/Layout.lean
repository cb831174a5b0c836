import AttributeRegistry.Decimal.Shortest

/-!
# Layouts of a decimal

A shortest decimal `0.d₁d₂…dₙ · 10^point` is written positionally, or with an exponent. What a
format decides — the range of `point` written positionally, whether a whole number keeps a fraction,
the spelling of exponents and of the values that are no numbers — is one `Layout` record; the three
records at the end are those in use.
-/

namespace AttributeRegistry.Decimal

/-- The decisions of a format about doubles. -/
structure Layout where
  /-- Least and greatest `point` written positionally; `none` for no bound. -/
  positional : Option (Int × Int)
  /-- Whether a whole number ends in `.0`. -/
  fraction : Bool
  nan : String
  infinite : String

/-- Zeros. -/
def zeros (n : Nat) : String :=
  String.ofList (List.replicate n '0')

/-- The digits with the decimal point `point` places after the first one's left. -/
def placed (layout : Layout) (digits : String) (point : Int) : String :=
  let n : Int := digits.length
  if point ≤ 0 then "0." ++ zeros (-point).toNat ++ digits
  else if n ≤ point then
    digits ++ zeros (point - n).toNat ++ (if layout.fraction then ".0" else "")
  else
    String.ofList (digits.toList.take point.toNat) ++ "."
      ++ String.ofList (digits.toList.drop point.toNat)

/-- The digits with a point after the first, and the exponent with its sign. -/
def scientific (digits : String) (point : Int) : String :=
  let e := point - 1
  let mantissa := match digits.toList with
    | [] => ""
    | [d] => String.ofList [d]
    | d :: ds => String.ofList (d :: '.' :: ds)
  mantissa ++ "e" ++ (if e < 0 then "-" else "+") ++ toString e.natAbs

/-- A positive decimal in a layout. -/
def Scaled.write (layout : Layout) (d : Scaled) : String :=
  let digits := toString d.digits
  let point : Int := digits.length + d.exponent
  match layout.positional with
  | none => placed layout digits point
  | some (least, greatest) =>
    if least ≤ point ∧ point ≤ greatest then placed layout digits point
    else scientific digits point

/-- A double in a layout. -/
def write (layout : Layout) (f : Float) : String :=
  let (negative, magnitude) := decode f
  let sign := if negative then "-" else ""
  match magnitude with
  | .nan => layout.nan
  | .infinite => sign ++ layout.infinite
  | .zero => sign ++ "0" ++ (if layout.fraction then ".0" else "")
  | .finite x => sign ++ x.shortest.write layout

/-- The layout of JSON numbers: positional from `0.00001` up to sixteen places before the point,
always with a fraction or an exponent. A value that is no number is written as the null value. -/
def jsonLayout : Layout :=
  { positional := some (-4, 16), fraction := true, nan := "null", infinite := "null" }

/-- The plain layout: positional whatever the size, a whole number without a fraction. -/
def plainLayout : Layout :=
  { positional := none, fraction := false, nan := "NaN", infinite := "inf" }

/-- The plain layout, except that a whole number ends in `.0`. -/
def fractionLayout : Layout :=
  { plainLayout with fraction := true }

/-- A double as a JSON number. -/
def writeJson (f : Float) : String :=
  match (decode f).2 with
  | .nan | .infinite => jsonLayout.nan
  | _ => write jsonLayout f

end AttributeRegistry.Decimal
