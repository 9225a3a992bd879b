import OrderAdmission.Number.Digits

/-!
# Dates and times in TOML

Dates and times in a TOML document. They are not interpreted: what is read is the text of the
moment in its regular form, with a `T` between date and time and without zeros at the end of a
fraction of a second.
-/
namespace OrderAdmission.Toml

/-- Reads a number with this many digits. -/
def fixed? (count : Nat) (cs : List Char) : Option (Nat × List Char) := do
  let ds := cs.take count
  if ds.length = count then return (← Number.ofDigits? ds 0, cs.drop count) else none

/-- The digits of a number, with zeros in front of them up to this many. -/
def padded (count n : Nat) : List Char :=
  let ds := Number.digits n
  List.replicate (count - ds.length) '0' ++ ds

/-- What follows a character that must stand here. -/
def after? (c : Char) : List Char → Option (List Char)
  | d :: rest => if d = c then some rest else none
  | [] => none

/-- The number of days of a month. -/
def monthDays (year month : Nat) : Nat :=
  if month = 2 then
    if year % 4 = 0 ∧ (year % 100 ≠ 0 ∨ year % 400 = 0) then 29 else 28
  else if month = 4 ∨ month = 6 ∨ month = 9 ∨ month = 11 then 30
  else 31

def date? (cs : List Char) : Option (List Char × List Char) := do
  let (year, rest) ← fixed? 4 cs
  let (month, rest) ← fixed? 2 (← after? '-' rest)
  let (day, rest) ← fixed? 2 (← after? '-' rest)
  if 1 ≤ month ∧ month ≤ 12 ∧ 1 ≤ day ∧ day ≤ monthDays year month then
    return (padded 4 year ++ '-' :: padded 2 month ++ '-' :: padded 2 day, rest)
  else none

/-- Reads the fraction of a second: its first nine digits without zeros at the end. -/
def fraction? (cs : List Char) : Option (List Char × List Char) :=
  match cs with
  | '.' :: rest =>
    let ds := rest.takeWhile Number.isDigit
    if ds.isEmpty then none
    else
      let kept := ((ds.take 9).reverse.dropWhile (· == '0')).reverse
      some (if kept.isEmpty then [] else '.' :: kept, rest.dropWhile Number.isDigit)
  | _ => some ([], cs)

def time? (cs : List Char) : Option (List Char × List Char) := do
  let (hour, rest) ← fixed? 2 cs
  let (minute, rest) ← fixed? 2 (← after? ':' rest)
  let (second, rest) ← fixed? 2 (← after? ':' rest)
  let (fraction, rest) ← fraction? rest
  if hour ≤ 23 ∧ minute ≤ 59 ∧ second ≤ 60 then
    return (padded 2 hour ++ ':' :: padded 2 minute ++ ':' :: padded 2 second ++ fraction, rest)
  else none

/-- Reads the distance from universal time, if one is given. -/
def offset? (cs : List Char) : Option (List Char × List Char) :=
  let signed (sign : Char) (rest : List Char) : Option (List Char × List Char) := do
    let (hours, rest) ← fixed? 2 rest
    let (minutes, rest) ← fixed? 2 (← after? ':' rest)
    if hours ≤ 23 ∧ minutes ≤ 59 then
      return (sign :: padded 2 hours ++ ':' :: padded 2 minutes, rest)
    else none
  match cs with
  | 'Z' :: rest => some (['Z'], rest)
  | 'z' :: rest => some (['Z'], rest)
  | '+' :: rest => signed '+' rest
  | '-' :: rest => signed '-' rest
  | _ => some ([], cs)

/-- Reads what may follow a date: a time of day with its distance from universal time. -/
def timeOfDate? (cs : List Char) : Option (List Char × List Char) :=
  match cs with
  | c :: rest =>
    if c = 'T' ∨ c = 't' ∨ c = ' ' then do
      let (time, rest) ← time? rest
      let (offset, rest) ← offset? rest
      return ('T' :: time ++ offset, rest)
    else none
  | [] => none

/-- Reads a date, a time of day or both. -/
def moment? (cs : List Char) : Option (String × List Char) :=
  match date? cs with
  | some (date, rest) =>
    match timeOfDate? rest with
    | some (time, rest) => some (String.ofList (date ++ time), rest)
    | none => some (String.ofList date, rest)
  | none => (time? cs).map fun (time, rest) => (String.ofList time, rest)

end OrderAdmission.Toml
