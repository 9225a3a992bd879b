/-!
# Random identifiers

An identifier is 128 bits in base sixteen, in five groups, with the marks of a random one in the
third and the fourth group.
-/
namespace OrderAdmission.Identifier

def hexDigit (d : Nat) : Char := Char.ofNat (if d < 10 then 48 + d else 87 + d)

def hexDigits : Nat → Nat → List Char
  | 0, _ => []
  | count + 1, n => hexDigits count (n / 16) ++ [hexDigit (n % 16)]

/-- The identifier made of these bits. -/
def text (bits : Nat) : String :=
  let group (count shift : Nat) : List Char := hexDigits count (bits / Nat.pow 2 shift)
  String.ofList (group 8 96 ++ '-' :: group 4 80 ++ '-' :: '4' :: group 3 64 ++ '-' ::
    hexDigit (8 + bits / 0x1000000000000000 % 4) :: group 3 48 ++ '-' :: group 12 0)

end OrderAdmission.Identifier
