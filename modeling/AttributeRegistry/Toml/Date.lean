import AttributeRegistry.Toml.Number

/-!
# Dates and times of TOML

A date, a time of day, or both, the latter perhaps with an offset. The reader gives the normal form:
a `T` between date and time, fractions of a second to at most nine places and without zeros at the
end.

A date that a text spells (`dateOf?`) has the same normal form, but looser rules.
-/

namespace AttributeRegistry.Toml

/-- A number of exactly `count` decimal digits. -/
def fixedNumber (count : Nat) : Reader Nat := fun cs =>
  let ds := (cs.take count).takeWhile Char.isDigit
  if ds.length = count then .ok (numeral 10 ds, cs.drop count) else refuse cs

/-- A number of two decimal digits within bounds. -/
def twoDigits (least greatest : Nat) : Reader Nat :=
  check (fun n => if least ≤ n ∧ n ≤ greatest then .ok n else .error outOfRange) (fixedNumber 2)

/-- A character that has to stand at the beginning of a text. -/
def character (c : Char) : Reader Unit
  | d :: cs => if d = c then .ok ((), cs) else refuse (d :: cs)
  | [] => refuse []

/-- A number with zeros in front. -/
def padded (width n : Nat) : String :=
  let digits := toString n
  String.ofList (List.replicate (width - digits.length) '0') ++ digits

/-! ## Dates -/

/-- The number of days of a month. -/
def daysIn (year month : Nat) : Nat :=
  if month = 2 then
    if year % 4 = 0 ∧ (year % 100 ≠ 0 ∨ year % 400 = 0) then 29 else 28
  else if month = 4 ∨ month = 6 ∨ month = 9 ∨ month = 11 then 30
  else 31

/-- A day of the calendar. -/
def day : Reader String := fun cs => do
  let (year, rest) ← fixedNumber 4 cs
  let ((), rest) ← character '-' rest
  commit do
    let (month, rest) ← twoDigits 1 12 rest
    let ((), atDay) ← character '-' rest
    let (day, rest) ← twoDigits 1 31 atDay
    if daysIn year month < day then refuseFor outOfRange atDay
    else return (padded 4 year ++ "-" ++ padded 2 month ++ "-" ++ padded 2 day, rest)

/-! ## Times -/

/-- A fraction of a second. -/
def secondFraction : Reader String
  | '.' :: cs =>
    let ds := cs.takeWhile Char.isDigit
    if ds.isEmpty then refuse cs
    else
      let kept := ((ds.take 9).reverse.dropWhile (· = '0')).reverse
      .ok (if kept.isEmpty then "" else String.ofList ('.' :: kept), cs.dropWhile Char.isDigit)
  | cs => refuse cs

/-- A time of day up to an hour. -/
def timeUpTo (latest : Nat) : Reader String := fun cs => do
  let (hour, rest) ← twoDigits 0 latest cs
  let ((), rest) ← character ':' rest
  commit do
    let (minute, rest) ← twoDigits 0 59 rest
    let ((), rest) ← character ':' rest
    let (second, rest) ← twoDigits 0 60 rest
    let (fraction, rest) ← optionally secondFraction rest
    return (padded 2 hour ++ ":" ++ padded 2 minute ++ ":" ++ padded 2 second ++ fraction.getD "",
      rest)

/-- A time of day. -/
def time : Reader String :=
  timeUpTo 23

/-- The hours and minutes of an offset. -/
def offsetClock : Reader String := fun cs => commit do
  let (hour, rest) ← twoDigits 0 23 cs
  let ((), rest) ← character ':' rest
  let (minute, rest) ← twoDigits 0 59 rest
  return (padded 2 hour ++ ":" ++ padded 2 minute, rest)

/-- The offset of a time. -/
def offset : Reader String := fun cs =>
  labeled "time offset" <|
    match cs with
    | 'Z' :: rest => .ok ("Z", rest)
    | 'z' :: rest => .ok ("Z", rest)
    | '+' :: rest => do
      let (clock, rest) ← offsetClock rest
      return ("+" ++ clock, rest)
    | '-' :: rest => do
      let (clock, rest) ← offsetClock rest
      return ((if clock = "00:00" then "+" else "-") ++ clock, rest)
    | cs => refuse cs

/-- A time behind a date, and perhaps its offset. -/
def timeBehind : Reader String
  | c :: cs =>
    if c = 'T' || c = 't' || c = ' ' then do
      let (t, rest) ← time cs
      let (o, rest) ← optionally offset rest
      return ("T" ++ t ++ o.getD "", rest)
    else refuse (c :: cs)
  | [] => refuse []

/-- A date, a time, or both. -/
def date : Reader Scalar := fun cs => do
  let (text, rest) ← orElse
    (labeled "date-time" do
      let (d, rest) ← day cs
      let (t, rest) ← optionally timeBehind rest
      return (d ++ t.getD "", rest))
    fun () => labeled "time" (time cs)
  return (.date text, rest)

/-! ## Spelled by a text -/

/-- An offset of at most a day; its minutes may go beyond the hour. -/
def spelledOffset : Reader String
  | [] => refuse []
  | c :: cs =>
    if c = 'Z' || c = 'z' then .ok ("Z", cs)
    else if c = '+' || c = '-' then do
      let (hours, rest) ← fixedNumber 2 cs
      let ((), rest) ← character ':' rest
      let (minutes, rest) ← fixedNumber 2 rest
      let total := 60 * hours + minutes
      if 24 * 60 < total then refuse rest
      else
        let sign := if total = 0 then "+" else c.toString
        return (sign ++ padded 2 (total / 60) ++ ":" ++ padded 2 (total % 60), rest)
    else refuse (c :: cs)

/-- A date, a time up to the hour 24, or both; an offset may follow a date even without a time. -/
def spelledDate : Reader String := fun cs =>
  if cs[2]? = some ':' then timeUpTo 24 cs
  else do
    let (d, rest) ← day cs
    let (t, rest) ←
      match rest with
      | c :: more =>
        if c = 'T' || c = 't' || c = ' ' then do
          let (t, rest) ← timeUpTo 24 more
          pure ("T" ++ t, rest)
        else pure ("", rest)
      | [] => pure ("", rest)
    let (o, rest) ← optionally spelledOffset rest
    return (d ++ t ++ o.getD "", rest)

/-- The normal form of the date a whole text spells. -/
def dateOf? (s : String) : Option String :=
  match spelledDate s.toList with
  | .ok (date, []) => some date
  | _ => none

end AttributeRegistry.Toml
