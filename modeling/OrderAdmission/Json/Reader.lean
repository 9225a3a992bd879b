import OrderAdmission.Json.Value
import OrderAdmission.Number.Binary

/-!
# JSON text to documents

Reading JSON text.

The grammar is that of the format, with three rules on top. Documents nest at most 127 deep. A
whole number that fits a signed or unsigned 64-bit word is an integer, and `-0` is not one. Any
other number is read in two roundings: its digits, as many as fit a 64-bit word, are rounded to a
binary number, and that number is multiplied or divided by a power of ten. A number too large for
a binary number is an error.
-/
namespace OrderAdmission.Json

open Number (digitValue? isDigit)

/-- A text that is being read, and how deep documents may still nest. -/
abbrev Read (α : Type) := List Char → Option (α × List Char)

/-- Drops the white space of the format. -/
def skipBlank (cs : List Char) : List Char :=
  cs.dropWhile fun c => c == ' ' || c == '\n' || c == '\t' || c == '\r'

/-- Drops a word that the text begins with. -/
def dropWord : List Char → List Char → Option (List Char)
  | [], cs => some cs
  | _ :: _, [] => none
  | w :: ws, c :: cs => if w = c then dropWord ws cs else none

/-- The value of four hexadecimal digits. -/
def hex4? : List Char → Option (Nat × List Char)
  | a :: b :: c :: d :: rest => do
    let value (c : Char) : Option Nat :=
      if isDigit c then some (c.toNat - 48)
      else if 'a' ≤ c ∧ c ≤ 'f' then some (c.toNat - 87)
      else if 'A' ≤ c ∧ c ≤ 'F' then some (c.toNat - 55)
      else none
    let w ← value a
    let x ← value b
    let y ← value c
    let z ← value d
    return (((w * 16 + x) * 16 + y) * 16 + z, rest)
  | _ => none

/-- Reads what follows the backslash of an escape. Two escapes of a surrogate pair are one
character, and a surrogate alone is none. -/
def escape? : List Char → Option (Char × List Char)
  | '"' :: cs => some ('"', cs)
  | '\\' :: cs => some ('\\', cs)
  | '/' :: cs => some ('/', cs)
  | 'b' :: cs => some (Char.ofNat 8, cs)
  | 'f' :: cs => some (Char.ofNat 12, cs)
  | 'n' :: cs => some ('\n', cs)
  | 'r' :: cs => some ('\r', cs)
  | 't' :: cs => some ('\t', cs)
  | 'u' :: cs =>
    match hex4? cs with
    | none => none
    | some (n, rest) =>
      if 0xDC00 ≤ n ∧ n < 0xE000 then none
      else if 0xD800 ≤ n ∧ n < 0xDC00 then
        match rest with
        | '\\' :: 'u' :: more =>
          match hex4? more with
          | some (low, rest) =>
            if 0xDC00 ≤ low ∧ low < 0xE000 then
              some (Char.ofNat (0x10000 + (n - 0xD800) * 1024 + (low - 0xDC00)), rest)
            else none
          | none => none
        | _ => none
      else some (Char.ofNat n, rest)
  | _ => none

/-- Reads a string up to its closing quote. Control characters must be escaped. -/
def stringBody : Nat → List Char → List Char → Option (String × List Char)
  | 0, _, _ => none
  | fuel + 1, cs, acc =>
    match cs with
    | [] => none
    | '"' :: rest => some (String.ofList acc.reverse, rest)
    | '\\' :: rest =>
      match escape? rest with
      | some (c, rest) => stringBody fuel rest (c :: acc)
      | none => none
    | c :: rest => if c.toNat < 32 then none else stringBody fuel rest (c :: acc)

/-- The largest power of ten that is multiplied or divided by at once. -/
def powerStep : Nat := 308

/-- Multiplies `x` by `10 ^ e`, dividing where the exponent is negative. Nothing is returned where
the result is too large. The exponents of texts are bounded, and so is the number of steps. -/
def scaled? : Nat → Float → Int → Option Float
  | 0, x, _ => some x
  | steps + 1, x, e =>
    if e.natAbs ≤ powerStep then
      let power := Float.ofScientific 1 false e.natAbs
      if 0 ≤ e then
        let y := x * power
        if y.isInf then none else some y
      else some (x / power)
    else if x == 0.0 then some x
    else if 0 ≤ e then none
    else scaled? steps (x / Float.ofScientific 1 false powerStep) (e + powerStep)

/-- The binary number of `digits * 10 ^ exponent`, read in two roundings. -/
def twoStep? (negative : Bool) (digits : Nat) (exponent : Int) : Option Float :=
  (scaled? 8 (Number.ofWord digits) exponent).map fun x => if negative then -x else x

/-- Whether one more digit still fits a 64-bit word. -/
def roomFor (n d : Nat) : Bool := n * 10 + d < UInt64.size

/-- Takes digits as long as they fit a 64-bit word: the number they write, how many were taken,
and how many digits follow that no longer fit. -/
def wordDigits : List Char → Nat → Nat → Nat × Nat × List Char
  | [], n, k => (n, k, [])
  | c :: cs, n, k =>
    match digitValue? c with
    | some d => if roomFor n d then wordDigits cs (n * 10 + d) (k + 1) else (n, k, c :: cs)
    | none => (n, k, c :: cs)

/-- Reads an exponent, after its mark, on top of one that the digits already have. Very large
exponents are the same as a large one. -/
def exponent? (negative : Bool) (digits : Nat) (start : Int) (cs : List Char) :
    Option (Json × List Char) :=
  let (up, cs) := match cs with
    | '+' :: rest => (true, rest)
    | '-' :: rest => (false, rest)
    | _ => (true, cs)
  let shown := cs.takeWhile isDigit
  let rest := cs.dropWhile isDigit
  if shown.isEmpty then none
  else do
    let e ← Number.ofDigits? shown 0
    if 0x80000000 ≤ e then
      if digits ≠ 0 ∧ up then none
      else return (float (if negative then -0.0 else 0.0), rest)
    else
      let x ← twoStep? negative digits (if up then start + e else start - e)
      return (float x, rest)

/-- Reads what may follow the digits of a binary number: an exponent. -/
def afterDigits? (negative : Bool) (digits : Nat) (start : Int) (cs : List Char) :
    Option (Json × List Char) :=
  match cs with
  | 'e' :: rest => exponent? negative digits start rest
  | 'E' :: rest => exponent? negative digits start rest
  | _ => (twoStep? negative digits start).map fun x => (float x, cs)

/-- Reads the places after a point; digits that no longer fit are passed over. -/
def places? (negative : Bool) (digits : Nat) (start : Int) (cs : List Char) :
    Option (Json × List Char) :=
  let (n, k, rest) := wordDigits cs digits 0
  let more := rest.dropWhile isDigit
  if k = 0 ∧ (rest.takeWhile isDigit).isEmpty then none
  else afterDigits? negative n (start - k) more

/-- Reads a number after its sign. -/
def number? (negative : Bool) (cs : List Char) : Option (Json × List Char) :=
  match cs with
  | '0' :: c :: _ => if isDigit c then none else unsigned
  | _ => unsigned
where
  unsigned : Option (Json × List Char) :=
    let (n, k, rest) := wordDigits cs 0 0
    if k = 0 then none
    else
      let beyond := rest.takeWhile isDigit
      let start : Int := beyond.length
      match rest.dropWhile isDigit with
      | '.' :: more => places? negative n start more
      | more =>
        if beyond.isEmpty ∧ more.head? ≠ some 'e' ∧ more.head? ≠ some 'E' then
          if !negative then some (int n, more)
          else if n = 0 ∨ 0x8000000000000000 < n then some (float (-(Number.ofWord n)), more)
          else some (int (-(n : Int)), more)
        else afterDigits? negative n start more

mutual

/-- Reads one document. The fuel bounds the number of documents and members on the way, the depth
how far they may still nest. -/
def value? : Nat → Nat → List Char → Option (Json × List Char)
  | 0, _, _ => none
  | fuel + 1, depth, cs =>
    match skipBlank cs with
    | 'n' :: rest => (dropWord ['u', 'l', 'l'] rest).map fun r => (null, r)
    | 't' :: rest => (dropWord ['r', 'u', 'e'] rest).map fun r => (bool true, r)
    | 'f' :: rest => (dropWord ['a', 'l', 's', 'e'] rest).map fun r => (bool false, r)
    | '"' :: rest => (stringBody (rest.length + 1) rest []).map fun (s, r) => (str s, r)
    | '-' :: rest => number? true rest
    | '[' :: rest =>
      if depth ≤ 1 then none
      else
        match skipBlank rest with
        | ']' :: r => some (arr [], r)
        | r => (items? fuel (depth - 1) r).map fun (xs, r) => (arr xs, r)
    | '\x7b' :: rest =>
      if depth ≤ 1 then none
      else
        match skipBlank rest with
        | '\x7d' :: r => some (obj [], r)
        | r => (members? fuel (depth - 1) r []).map fun (ms, r) => (obj ms, r)
    | rest => number? false rest

/-- Reads the items of an array up to its closing bracket. -/
def items? : Nat → Nat → List Char → Option (List Json × List Char)
  | 0, _, _ => none
  | fuel + 1, depth, cs =>
    match value? fuel depth cs with
    | none => none
    | some (x, rest) =>
      match skipBlank rest with
      | ']' :: r => some ([x], r)
      | ',' :: r => (items? fuel depth r).map fun (xs, r) => (x :: xs, r)
      | _ => none

/-- Reads the members of an object up to its closing brace; of two with one name the later
counts. -/
def members? :
    Nat → Nat → List Char → List (String × Json) → Option (List (String × Json) × List Char)
  | 0, _, _, _ => none
  | fuel + 1, depth, cs, acc =>
    match skipBlank cs with
    | '"' :: rest =>
      match stringBody (rest.length + 1) rest [] with
      | none => none
      | some (name, rest) =>
        match skipBlank rest with
        | ':' :: rest =>
          match value? fuel depth rest with
          | none => none
          | some (x, rest) =>
            let acc := putMember name x acc
            match skipBlank rest with
            | '\x7d' :: r => some (acc, r)
            | ',' :: r => members? fuel depth r acc
            | _ => none
        | _ => none
    | _ => none

end

/-- How deep documents may nest. -/
def maxDepth : Nat := 128

/-- Reads a text that holds one document and nothing else. -/
def read? (s : String) : Option Json :=
  let cs := s.toList
  match value? (2 * cs.length + 2) maxDepth cs with
  | some (j, rest) => if (skipBlank rest).isEmpty then some j else none
  | none => none

end OrderAdmission.Json
