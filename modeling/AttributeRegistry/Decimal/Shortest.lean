/-!
# Shortest decimals

The fewest decimal digits that read back as a given double. A finite positive double is `m · 2^q`
with `m` below `2^53`, and every real number nearer to it than to its neighbours reads back as it;
the ends of that interval do so when `m` is even. On the grids with 1, 2, …, 17 significant digits
the value's two neighbours are tried in turn: the first grid with a neighbour in the interval wins,
of two such neighbours the nearer, and at equal distance the even one.

All arithmetic is on natural numbers, in quarters of the unit `2^q`: there the value is `4m` and the
interval reaches two quarters up, and two quarters down or, below a power of two, one.
-/

namespace AttributeRegistry.Decimal

/-- A positive decimal `digits · 10^exponent`. -/
structure Scaled where
  digits : Nat
  exponent : Int
deriving Repr, DecidableEq

/-- A positive number `m · 2^q`; `tight` says that the next number below is only half as far away as
the next one above. -/
structure Binary where
  m : Nat
  q : Int
  tight : Bool
deriving Repr, DecidableEq

/-- The number `n · 2^a · 10^b` as a numerator and a denominator. -/
def ratio (n : Nat) (a b : Int) : Nat × Nat :=
  (n * Nat.pow 2 a.toNat * Nat.pow 10 b.toNat, Nat.pow 2 (-a).toNat * Nat.pow 10 (-b).toNat)

/-- Whether `d · 10^p` reads back as the number: it lies between the interval's ends. -/
def Binary.readsBack (x : Binary) (d : Nat) (p : Int) : Bool :=
  let low := ratio (4 * x.m - (if x.tight then 1 else 2)) (x.q - 2) (-p)
  let high := ratio (4 * x.m + 2) (x.q - 2) (-p)
  if x.m % 2 = 0 then low.1 ≤ d * low.2 && d * high.2 ≤ high.1
  else low.1 < d * low.2 && d * high.2 < high.1

/-- The better neighbour of the number on the grid of multiples of `10^p`, if one reads back. -/
def Binary.onGrid (x : Binary) (p : Int) : Option Nat :=
  let v := ratio x.m x.q (-p)
  let below := v.1 / v.2
  let above := below + 1
  match x.readsBack below p, x.readsBack above p with
  | true, true =>
    -- twice the distance past `below`, against one grid step
    let past := 2 * (v.1 - below * v.2)
    if past < v.2 then some below
    else if v.2 < past then some above
    else if below % 2 = 0 then some below else some above
  | true, false => if below = 0 then none else some below
  | false, true => some above
  | false, false => none

/-- The exponent of the leading digit of `n / d`: the greatest `e` with `10^e ≤ n / d`, searched
downwards from a start that is large enough. -/
def leadingFrom (n d : Nat) : Nat → Int → Int
  | 0, e => e
  | steps + 1, e =>
    let power := ratio 1 0 e
    if power.1 * d ≤ n * power.2 then e else leadingFrom n d steps (e - 1)

/-- The exponent of the leading digit of the number. -/
def Binary.leading (x : Binary) : Int :=
  let v := ratio x.m x.q 0
  -- with `b` bits the number lies between `2^(b - 1)` and `2^b`, and `log₁₀ 2` is near `0.30103`
  let bits : Int := x.m.log2 + 1 + x.q
  let start := bits * 30103 / 100000 + 1
  leadingFrom v.1 v.2 4 start

/-- Moves the zeros a numeral ends with into the exponent. -/
def stripZeros : Nat → Nat → Int → Scaled
  | 0, d, p => ⟨d, p⟩
  | steps + 1, d, p =>
    if d % 10 = 0 ∧ d ≠ 0 then stripZeros steps (d / 10) (p + 1) else ⟨d, p⟩

/-- The shortest decimal that reads back, on the grids with `count` digits and more. -/
def Binary.search (x : Binary) : Nat → Nat → Scaled
  | 0, count => ⟨x.m, count⟩
  | grids + 1, count =>
    let p := x.leading - (count : Int) + 1
    match x.onGrid p with
    | some d => stripZeros 17 d p
    | none => x.search grids (count + 1)

/-- The shortest decimal that reads back; seventeen digits always do. -/
def Binary.shortest (x : Binary) : Scaled :=
  x.search 17 1

/-! ## Doubles -/

/-- What a double is, its sign apart. -/
inductive Magnitude where
  | nan
  | infinite
  | zero
  | finite (x : Binary)
deriving Repr, DecidableEq

/-- Sign (set for a negative double) and magnitude of a double, from its bits. -/
def decode (f : Float) : Bool × Magnitude :=
  let bits := f.toBits.toNat
  let sign := bits / Nat.pow 2 63 = 1
  let exponent : Nat := bits / Nat.pow 2 52 % Nat.pow 2 11
  let fraction : Nat := bits % Nat.pow 2 52
  if exponent = 2047 then (sign, if fraction = 0 then .infinite else .nan)
  else if exponent = 0 then
    (sign, if fraction = 0 then .zero else .finite ⟨fraction, -1074, false⟩)
  else
    (sign,
      .finite ⟨Nat.pow 2 52 + fraction, (exponent : Int) - 1075, fraction = 0 && 1 < exponent⟩)

end AttributeRegistry.Decimal
