import OrderAdmission.Crash
import OrderAdmission.Json.Value
import OrderAdmission.Number.Binary
import OrderAdmission.Toml.Text

/-!
# Numbers in TOML

Numbers in a TOML document. Single underscores may stand between digits. Whole numbers are signed
words; those in base sixteen, eight and two have no sign. A decimal number has no zero in front,
and is a binary number if it has a point or an exponent.
-/
namespace OrderAdmission.Toml

/-- Reads a digit and what follows of digits, with single underscores between them: the digits and
the rest. -/
def digitRun (isDigit : Char → Bool) : List Char → List Char × List Char
  | [] => ([], [])
  | '_' :: d :: rest =>
    if isDigit d then
      let (ds, rest) := digitRun isDigit rest
      (d :: ds, rest)
    else ([], '_' :: d :: rest)
  | c :: rest =>
    if isDigit c then
      let (ds, rest) := digitRun isDigit rest
      (c :: ds, rest)
    else ([], c :: rest)

/-- Reads digits, at least one of them. -/
def digits? (isDigit : Char → Bool) (cs : List Char) : Option (List Char × List Char) :=
  match cs with
  | c :: _ => if isDigit c then some (digitRun isDigit cs) else none
  | [] => none

/-- A whole number that fits a signed word. -/
def signed? (n : Int) : Option Json := if minSigned ≤ n ∧ n ≤ maxSigned then some (.int n) else none

/-- Reads a whole number in a base below seventeen. -/
def inBase? (base : Nat) (cs : List Char) : Option (Json × List Char) := do
  let isDigit (c : Char) : Bool := match hexValue? c with
    | some d => d < base
    | none => false
  let (ds, rest) ← digits? isDigit cs
  let n := ds.foldl (fun n c => base * n + (hexValue? c).getD 0) 0
  return (← signed? n, rest)

/-- Reads the exponent of a number, if there is one: its characters. -/
def exponent? (cs : List Char) : Option (List Char × List Char) :=
  match cs with
  | c :: rest =>
    if c = 'e' ∨ c = 'E' then do
      let (sign, rest) := match rest with
        | '+' :: more => ([], more)
        | '-' :: more => (['-'], more)
        | more => ([], more)
      let (ds, rest) ← digits? Number.isDigit rest
      return ('e' :: sign ++ ds, rest)
    else some ([], cs)
  | [] => some ([], [])

/-- Reads the places behind the point of a number, if there is one: the point and its digits. -/
def places? (cs : List Char) : Option (List Char × List Char) :=
  match cs with
  | '.' :: rest => do
    let (ds, rest) ← digits? Number.isDigit rest
    return ('.' :: ds, rest)
  | _ => some ([], cs)

/-- Reads a decimal number. A binary number too large for its range is refused unless it is
negative. -/
def decimal? (negative : Bool) (cs : List Char) : Option (Json × List Char) := do
  let (ds, rest) ← match cs with
    | '0' :: rest => some (['0'], rest)
    | _ => digits? Number.isDigit cs
  let (places, rest) ← places? rest
  let (exponent, rest) ← exponent? rest
  if places.isEmpty && exponent.isEmpty then
    let n ← Number.ofDigits? ds 0
    return (← signed? (if negative then -(n : Int) else n), rest)
  else
    let x ← Number.float? (ds ++ places ++ exponent)
    if negative then return (.float (-x), rest)
    else if x.isInf then none
    else return (.float x, rest)

/-- Reads one of the words for the numbers that are not finite. -/
def special? (negative : Bool) (cs : List Char) : Option (Json × List Char) :=
  match cs with
  | 'i' :: 'n' :: 'f' :: rest =>
    some (.float (if negative then -1.0 / 0.0 else 1.0 / 0.0), rest)
  | 'n' :: 'a' :: 'n' :: rest => some (.float (0.0 / 0.0), rest)
  | _ => none

def number? (cs : List Char) : Option (Json × List Char) :=
  match cs with
  | '0' :: 'x' :: rest => inBase? 16 rest
  | '0' :: 'o' :: rest => inBase? 8 rest
  | '0' :: 'b' :: rest => inBase? 2 rest
  | '+' :: rest => (special? false rest).or (decimal? false rest)
  | '-' :: rest => (special? true rest).or (decimal? true rest)
  | _ => (special? false cs).or (decimal? false cs)

end OrderAdmission.Toml
