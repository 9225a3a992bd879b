import OrderAdmission.Number.Digits

/-!
# Binary floating-point numbers

Numbers of 64 bits, one of sign, 11 of exponent and 52 of fraction, and their decimal texts.

A finite number is a whole number of units, `m * 2 ^ q`. Its **shortest text** is the one with the
fewest digits among the decimals that round to the number, and the nearest of those: the search
tests, for one, two, … digits, the two neighbours of the number on that decimal grid, in exact
arithmetic. Texts are positional and never carry an exponent.

In the other direction a text is read as the number nearest to what it says.
-/
namespace OrderAdmission.Number

/-- A finite binary number without its sign: `significand * 2 ^ exponent`. -/
structure Magnitude where
  significand : Nat
  exponent : Int
  deriving DecidableEq, Repr

/-- Whether the sign bit is set, also of a zero. -/
def isNegative (x : Float) : Bool := x.toBits.toNat ≥ 0x8000000000000000

/-- The significand of a power of two: `2 ^ 52`, the bit above the fraction. -/
def leadingBit : Nat := 0x10000000000000

def magnitude (x : Float) : Magnitude :=
  let bits := x.toBits.toNat
  let fraction : Nat := bits % leadingBit
  let biased : Nat := bits / leadingBit % 0x800
  if biased = 0 then { significand := fraction, exponent := -1074 }
  else { significand := fraction + leadingBit, exponent := (biased : Int) - 1075 }

/-- A quotient of natural numbers, the denominator not zero. -/
structure Ratio where
  num : Nat
  den : Nat
  deriving DecidableEq, Repr

/-- `n * 2 ^ e` as a quotient. -/
def Ratio.ofBinary (n : Nat) (e : Int) : Ratio :=
  if 0 ≤ e then ⟨n * Nat.pow 2 e.toNat, 1⟩ else ⟨n, Nat.pow 2 (-e).toNat⟩

/-- `n * 10 ^ e` as a quotient. -/
def Ratio.ofDecimal (n : Nat) (e : Int) : Ratio :=
  if 0 ≤ e then ⟨n * Nat.pow 10 e.toNat, 1⟩ else ⟨n, Nat.pow 10 (-e).toNat⟩

def Ratio.le (a b : Ratio) : Bool := a.num * b.den ≤ b.num * a.den

def Ratio.lt (a b : Ratio) : Bool := a.num * b.den < b.num * a.den

/-- The place of the decimal point: the least `k` with `r < 10 ^ k`, for a positive `r`. -/
def Ratio.point (r : Ratio) : Int :=
  if r.den ≤ r.num then digitCount (r.num / r.den)
  else 1 - (digitCount ((r.den - 1) / r.num) : Int)

/-- A decimal: `mantissa * 10 ^ exponent`. -/
structure Scientific where
  mantissa : Nat
  exponent : Int
  deriving DecidableEq, Repr

/-- The reals that round to a magnitude form an interval; whether `r` lies in it. The ends belong
to it when the significand is even, and below a power of two the interval is half as wide. -/
def Magnitude.covers (v : Magnitude) (r : Ratio) : Bool :=
  let narrow := v.significand = leadingBit ∧ -1074 < v.exponent
  let lower := Ratio.ofBinary (4 * v.significand - if narrow then 1 else 2) (v.exponent - 2)
  let upper := Ratio.ofBinary (4 * v.significand + 2) (v.exponent - 2)
  if v.significand % 2 = 0 then lower.le r && r.le upper else lower.lt r && r.lt upper

/-- The same decimal without zeros at the end of its mantissa. -/
def Scientific.trimmed (s : Scientific) : Scientific :=
  if 0 < s.mantissa ∧ s.mantissa % 10 = 0 then
    Scientific.trimmed ⟨s.mantissa / 10, s.exponent + 1⟩
  else s
termination_by s.mantissa
decreasing_by omega

/-- The decimal with `n` digits next to `v` that rounds to it, if there is one: of the two
neighbours of `v` on the grid the nearer, and the even one half way between them. -/
def Magnitude.onGrid? (v : Magnitude) (n : Nat) : Option Scientific :=
  let value := Ratio.ofBinary v.significand v.exponent
  let unit : Int := value.point - n
  let scaled : Ratio :=
    if 0 ≤ unit then ⟨value.num, value.den * Nat.pow 10 unit.toNat⟩
    else ⟨value.num * Nat.pow 10 (-unit).toNat, value.den⟩
  let below := scaled.num / scaled.den
  let twice := 2 * (scaled.num % scaled.den)
  let up : Bool := scaled.den < twice || (twice == scaled.den && below % 2 == 1)
  let (near, far) := if up then (below + 1, below) else (below, below + 1)
  if v.covers (.ofDecimal near unit) then some ⟨near, unit⟩
  else if v.covers (.ofDecimal far unit) then some ⟨far, unit⟩
  else none

/-- The shortest decimal that rounds to `v`; seventeen digits always suffice. -/
def Magnitude.shortest (v : Magnitude) : Scientific :=
  if v.significand = 0 then ⟨0, 0⟩
  else (((List.range 17).findSome? fun i => v.onGrid? (i + 1)).getD ⟨0, 0⟩).trimmed

def Scientific.positional (s : Scientific) : List Char :=
  if s.mantissa = 0 then ['0']
  else if 0 ≤ s.exponent then digits s.mantissa ++ List.replicate s.exponent.toNat '0'
  else
    let places := (-s.exponent).toNat
    let ds := digits s.mantissa
    if places < ds.length then
      ds.take (ds.length - places) ++ '.' :: ds.drop (ds.length - places)
    else '0' :: '.' :: (List.replicate (places - ds.length) '0' ++ ds)

/-- The shortest positional text of a number. -/
def floatText (x : Float) : String :=
  if x.isNaN then "NaN"
  else
    let body := if x.isInf then "inf".toList else (magnitude x).shortest.positional
    String.ofList (if isNegative x then '-' :: body else body)

/-- The nearest whole number, a half going to the even neighbour, as text. -/
def wholeText (x : Float) : String :=
  if x.isNaN then "NaN"
  else
    let body :=
      if x.isInf then "inf".toList
      else
        let v := magnitude x
        let r := Ratio.ofBinary v.significand v.exponent
        let below := r.num / r.den
        let twice := 2 * (r.num % r.den)
        digits (if r.den < twice ∨ (twice = r.den ∧ below % 2 = 1) then below + 1 else below)
    String.ofList (if isNegative x then '-' :: body else body)

/-- The sixteen hexadecimal digits of the 64 bits of a number. -/
def hexText (x : Float) : String :=
  let bits := x.toBits.toNat
  String.ofList <| (List.range 16).map fun i =>
    let d := bits / Nat.pow 16 (15 - i) % 16
    if d < 10 then digitChar d else Char.ofNat (87 + d)

/-- The number nearest to `n * 10 ^ e`. Exponents far outside the range of numbers are decided
without computing the power. -/
def nearest (n : Nat) (e : Int) : Float :=
  if n = 0 then 0.0
  else if 400 < e + digitCount n then 1.0 / 0.0
  else if e + digitCount n < -400 then 0.0
  else if 0 ≤ e then Float.ofScientific n false e.toNat
  else Float.ofScientific n true (-e).toNat

/-- Reads a decimal: digits with at most one point and at least one digit, and an exponent after
`e` or `E`. Or one of the words `inf`, `infinity` and `nan`, in any letter case. A sign may stand
in front. -/
def float? (cs : List Char) : Option Float :=
  let (negative, body) := match cs with
    | '-' :: rest => (true, rest)
    | '+' :: rest => (false, rest)
    | _ => (false, cs)
  let unsigned : Option Float :=
    match (body.map Char.toLower) with
    | ['i', 'n', 'f'] => some (1.0 / 0.0)
    | ['i', 'n', 'f', 'i', 'n', 'i', 't', 'y'] => some (1.0 / 0.0)
    | ['n', 'a', 'n'] => some (0.0 / 0.0)
    | _ =>
      let whole := body.takeWhile isDigit
      let (fraction, rest) := match body.dropWhile isDigit with
        | '.' :: more => (more.takeWhile isDigit, more.dropWhile isDigit)
        | more => ([], more)
      let exponent : Option Int := match rest with
        | [] => some 0
        | 'e' :: more => integer? more
        | 'E' :: more => integer? more
        | _ => none
      if whole.isEmpty && fraction.isEmpty then none
      else do
        let e ← exponent
        let n ← ofDigits? (whole ++ fraction) 0
        return nearest n (e - fraction.length)
  unsigned.map fun x => if negative then -x else x

/-- The least of the two, where a number that is no number gives way to the other. Of two equal
ones, such as the two zeros, it is the second. -/
def fmin (a b : Float) : Float :=
  if a.isNaN then b else if b.isNaN then a else if a < b then a else b

/-- The greater of the two, where a number that is no number gives way to the other. Of two equal
ones it is the second. -/
def fmax (a b : Float) : Float :=
  if a.isNaN then b else if b.isNaN then a else if b < a then a else b

/-- Moves a number into `[0, 1]`, to the nearer end if it lies outside. -/
def clampUnit (x : Float) : Float := if x < 0.0 then 0.0 else if 1.0 < x then 1.0 else x

/-- The nearest whole number, a half going away from zero, moved into the range of a 64-bit word. -/
def roundWord (x : Float) : Nat :=
  let whole := x.toUInt64
  let rest := x - whole.toFloat
  if 0.5 ≤ rest then min (whole.toNat + 1) (UInt64.size - 1) else whole.toNat

/-- The binary number nearest to a 64-bit word. -/
def ofWord (n : Nat) : Float := (UInt64.ofNat n).toFloat

end OrderAdmission.Number
