/-!
# Decimal digits

Writing a natural number in base ten, and reading one.
-/
namespace OrderAdmission.Number

/-- The digit with this value below ten. -/
def digitChar (d : Nat) : Char := Char.ofNat (48 + d)

def digitValue? (c : Char) : Option Nat :=
  if '0' ≤ c ∧ c ≤ '9' then some (c.toNat - 48) else none

def isDigit (c : Char) : Bool := '0' ≤ c && c ≤ '9'

/-- The digits of a number in base ten, put in front of `tail`. -/
def digitsOnto (n : Nat) (tail : List Char) : List Char :=
  if n < 10 then digitChar n :: tail
  else digitsOnto (n / 10) (digitChar (n % 10) :: tail)
termination_by n

/-- The digits of a number in base ten, without leading zeros; zero has one digit. -/
def digits (n : Nat) : List Char := digitsOnto n []

def digitCount (n : Nat) : Nat :=
  if n < 10 then 1 else digitCount (n / 10) + 1
termination_by n

/-- The number that a list of digits writes, or nothing if some character is no digit. -/
def ofDigits? : List Char → Nat → Option Nat
  | [], acc => some acc
  | c :: cs, acc =>
    match digitValue? c with
    | some d => ofDigits? cs (acc * 10 + d)
    | none => none

/-- Reads digits with an optional plus sign in front, at least one of them. -/
def natural? (cs : List Char) : Option Nat :=
  let body := match cs with
    | '+' :: rest => rest
    | _ => cs
  if body.isEmpty then none else ofDigits? body 0

/-- Reads digits with an optional sign in front, at least one of them. -/
def integer? (cs : List Char) : Option Int :=
  match cs with
  | '-' :: rest => if rest.isEmpty then none else (ofDigits? rest 0).map fun n => -(n : Int)
  | _ => (natural? cs).map fun n => (n : Int)

def natText (n : Nat) : String := String.ofList (digits n)

def intText (n : Int) : String :=
  if n < 0 then String.ofList ('-' :: digits n.natAbs) else natText n.natAbs

end OrderAdmission.Number
