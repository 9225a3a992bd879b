import OrderAdmission.Json.Value
import OrderAdmission.Number.Binary

/-!
# JSON documents to text

Writing a JSON document as compact text, on one line. A binary number is written with the fewest
digits. It shows a point or an exponent, so that it is not read back as an integer.
-/
namespace OrderAdmission

/-- A decimal as a JSON number that is no integer. A point that would stand more than sixteen places to
the right or more than five to the left of the first digit gives way to an exponent. -/
def Number.Scientific.literal (s : Scientific) : List Char :=
  let ds := digits s.mantissa
  let point : Int := ds.length + s.exponent
  if s.mantissa = 0 then "0.0".toList
  else if 16 < point ∨ point ≤ -5 then
    let fraction := if ds.length = 1 then [] else '.' :: ds.drop 1
    ds.take 1 ++ fraction ++ 'e' :: (intText (point - 1)).toList
  else if 0 ≤ s.exponent then s.positional ++ ".0".toList
  else s.positional

namespace Json

/-- The escaped form of a character inside a string. -/
def escaped (c : Char) : List Char :=
  if c = '"' then ['\\', '"']
  else if c = '\\' then ['\\', '\\']
  else if c = '\n' then ['\\', 'n']
  else if c = '\r' then ['\\', 'r']
  else if c = '\t' then ['\\', 't']
  else if c = '\x08' then ['\\', 'b']
  else if c = '\x0c' then ['\\', 'f']
  else if c.toNat < 32 then
    let digit (d : Nat) : Char := if d < 10 then Number.digitChar d else Char.ofNat (87 + d)
    ['\\', 'u', '0', '0', digit (c.toNat / 16), digit (c.toNat % 16)]
  else [c]

def quoted (s : String) : String :=
  String.ofList ('"' :: (s.toList.flatMap escaped ++ ['"']))

/-- The text of a binary number; what is no finite number is written `null`. -/
def floatLiteral (x : Float) : String :=
  if x.isNaN || x.isInf then "null"
  else
    let body := (Number.magnitude x).shortest.literal
    String.ofList (if Number.isNegative x then '-' :: body else body)

/-- Pieces with a comma between each two. -/
def commaSeparated : List String → String
  | [] => ""
  | [s] => s
  | s :: t :: rest => s ++ "," ++ commaSeparated (t :: rest)

mutual

def text : Json → String
  | null => "null"
  | bool true => "true"
  | bool false => "false"
  | int n => Number.intText n
  | float x => floatLiteral x
  | str s => quoted s
  | arr items => "[" ++ commaSeparated (itemTexts items) ++ "]"
  | obj members => "\x7b" ++ commaSeparated (memberTexts members) ++ "\x7d"

def itemTexts : List Json → List String
  | [] => []
  | j :: rest => text j :: itemTexts rest

def memberTexts : List (String × Json) → List String
  | [] => []
  | (n, j) :: rest => (quoted n ++ ":" ++ text j) :: memberTexts rest

end

end Json

end OrderAdmission
