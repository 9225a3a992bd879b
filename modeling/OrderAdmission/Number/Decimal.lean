import OrderAdmission.Number.Binary

/-!
# Bounded decimals

Exact decimals of bounded size, the numbers of quantities and prices.

A decimal is a whole number below `2 ^ 96` with up to 28 places after the point. The number of
places is part of the value, so `1.50` is written back as `1.50`. Zero has no sign.
-/
namespace OrderAdmission.Number

/-- A decimal `± coefficient / 10 ^ places`. -/
structure Decimal where
  negative : Bool
  coefficient : Nat
  places : Nat
  deriving DecidableEq, Repr, Inhabited

namespace Decimal

/-- Coefficients lie below this bound. -/
def coefficientBound : Nat := 0x1000000000000000000000000

/-- The largest number of places after the point. -/
def maxPlaces : Nat := 28

/-- A decimal with these parts; zero loses its sign. -/
def make (negative : Bool) (coefficient places : Nat) : Decimal :=
  { negative := negative && coefficient != 0, coefficient, places }

def ofNat (n : Nat) : Decimal := make false n 0

def ofInt (n : Int) : Decimal := make (n < 0) n.natAbs 0

def isPositive (d : Decimal) : Bool := !d.negative && d.coefficient != 0

/-- Cuts a decimal off before its next digit `d`, which rounds the last place away from zero when
it is five or more. A coefficient that grows out of its range gives up one place. -/
def roundedAt (negative : Bool) (coefficient places d : Nat) : Option Decimal :=
  if d < 5 then some (make negative coefficient places)
  else if coefficient + 1 < coefficientBound then some (make negative (coefficient + 1) places)
  else if places = 0 then none
  else some (make negative ((coefficient + 5) / 10) (places - 1))

/-- Reads the digits of a decimal. Once they fill its places or its coefficient the next digit
rounds and what follows is not read; before the point there is no room to round. Underscores may
separate digits after the first. -/
def digits? (negative : Bool) : List Char → Nat → Nat → Bool → Bool → Option Decimal
  | [], n, places, _, seen => if seen then some (make negative n places) else none
  | c :: cs, n, places, point, seen =>
    match digitValue? c with
    | some d =>
      if point ∧ maxPlaces ≤ places then roundedAt negative n places d
      else if n * 10 + d < coefficientBound then
        digits? negative cs (n * 10 + d) (if point then places + 1 else 0) point true
      else if point then roundedAt negative n places d
      else none
    | none =>
      if c = '.' ∧ !point then digits? negative cs n places true seen
      else if c = '_' ∧ seen then digits? negative cs n places point seen
      else none

/-- Reads a decimal in positional notation, with an optional sign. -/
def positional? (cs : List Char) : Option Decimal :=
  match cs with
  | '-' :: rest => digits? true rest 0 0 false false
  | '+' :: rest => digits? false rest 0 0 false false
  | _ => digits? false cs 0 0 false false

/-- Reads a decimal in scientific notation. The exponent moves the point; where that needs places
that are not written, the result is a whole number. -/
def scientific? (cs : List Char) : Option Decimal :=
  let isMark (c : Char) : Bool := c == 'e' || c == 'E'
  match cs.dropWhile (fun c => !isMark c) with
  | [] => none
  | _ :: exponent => do
    let base ← positional? (cs.takeWhile fun c => !isMark c)
    match exponent with
    | '-' :: rest =>
      let e ← natural? rest
      if base.places + e ≤ maxPlaces then some { base with places := base.places + e } else none
    | _ =>
      let e ← natural? exponent
      if e ≤ base.places then some { base with places := base.places - e }
      else if maxPlaces < e then none
      else
        let n := base.coefficient * Nat.pow 10 (e - base.places)
        if n < coefficientBound then some (make base.negative n 0) else none

def read? (s : String) : Option Decimal :=
  (positional? s.toList).or (scientific? s.toList)

/-- The decimal that the shortest text of a binary number says. -/
def ofFloat? (x : Float) : Option Decimal := positional? (floatText x).toList

/-- The text of a decimal: all its places, and a zero in front of a bare point. -/
def text (d : Decimal) : String :=
  let ds := digits d.coefficient
  let padded := List.replicate (d.places + 1 - ds.length) '0' ++ ds
  let body :=
    if d.places = 0 then ds
    else padded.take (padded.length - d.places) ++ '.' :: padded.drop (padded.length - d.places)
  String.ofList (if d.negative then '-' :: body else body)

end Decimal

end OrderAdmission.Number
