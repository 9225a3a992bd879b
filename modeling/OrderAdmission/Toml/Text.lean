import OrderAdmission.Number.Digits

/-!
# Small parts of TOML

The small parts of a TOML document: blanks, comments, the ends of lines, strings and keys.

A reader takes what is left of the document and returns what it read with the rest, or nothing
where the document is malformed. A bound on the number of characters makes the readers of strings
end.
-/
namespace OrderAdmission.Toml

/-- Whether a character may stand in a document besides the ends of lines: a tab, or no control
character. -/
def isPlain (c : Char) : Bool := c == '\t' || (32 ≤ c.toNat && c.toNat != 127)

def skipBlank (cs : List Char) : List Char := cs.dropWhile fun c => c == ' ' || c == '\t'

/-- What follows the end of a line that stands here. -/
def lineBreak? : List Char → Option (List Char)
  | '\n' :: rest => some rest
  | '\r' :: '\n' :: rest => some rest
  | _ => none

def skipComment : List Char → List Char
  | '#' :: rest => rest.dropWhile fun c => isPlain c || c.toNat == 127
  | cs => cs

/-- What follows the end of a line, where only blanks and a comment stand before it. The document
may end here too. -/
def lineEnd? (cs : List Char) : Option (List Char) :=
  match skipComment (skipBlank cs) with
  | [] => some []
  | rest => lineBreak? rest

def skipLines : Nat → List Char → List Char
  | 0, cs => cs
  | fuel + 1, cs =>
    let rest := skipComment (skipBlank cs)
    match lineBreak? rest with
    | some more => skipLines fuel more
    | none => rest

def hexValue? (c : Char) : Option Nat :=
  if '0' ≤ c ∧ c ≤ '9' then some (c.toNat - 48)
  else if 'a' ≤ c ∧ c ≤ 'f' then some (c.toNat - 87)
  else if 'A' ≤ c ∧ c ≤ 'F' then some (c.toNat - 55)
  else none

/-- The character whose number is written with this many hexadecimal digits. -/
def character? (count : Nat) (cs : List Char) : Option (Char × List Char) := do
  let ds ← (cs.take count).mapM hexValue?
  if ds.length = count then
    let n := ds.foldl (fun n d => 16 * n + d) 0
    if n < 0xD800 ∨ (0xDFFF < n ∧ n < 0x110000) then some (Char.ofNat n, cs.drop count) else none
  else none

/-- The character that is written behind a backslash. -/
def escape? : List Char → Option (Char × List Char)
  | 'b' :: rest => some (Char.ofNat 8, rest)
  | 't' :: rest => some ('\t', rest)
  | 'n' :: rest => some ('\n', rest)
  | 'f' :: rest => some (Char.ofNat 12, rest)
  | 'r' :: rest => some ('\r', rest)
  | '"' :: rest => some ('"', rest)
  | '\\' :: rest => some ('\\', rest)
  | 'u' :: rest => character? 4 rest
  | 'U' :: rest => character? 8 rest
  | _ => none

/-- Reads a string on one line up to its quote. A string between single quotes has no escapes. -/
def lineString? (quote : Char) : Nat → List Char → List Char → Option (String × List Char)
  | 0, _, _ => none
  | fuel + 1, cs, acc =>
    match cs with
    | [] => none
    | c :: rest =>
      if c = quote then some (String.ofList acc.reverse, rest)
      else if c = '\\' ∧ quote = '"' then
        match escape? rest with
        | some (c, rest) => lineString? quote fuel rest (c :: acc)
        | none => none
      else if isPlain c then lineString? quote fuel rest (c :: acc)
      else none

/-- Skips blanks and ends of lines. -/
def skipSpace : Nat → List Char → List Char
  | 0, cs => cs
  | fuel + 1, cs =>
    match lineBreak? (skipBlank cs) with
    | some rest => skipSpace fuel rest
    | none => skipBlank cs

/-- Reads a string on several lines up to its three quotes, right before which up to two quotes may
belong to it. A backslash at the end of a line skips all space up to the next character. -/
def linesString? (quote : Char) : Nat → List Char → List Char → Option (String × List Char)
  | 0, _, _ => none
  | fuel + 1, cs, acc =>
    match lineBreak? cs with
    | some rest => linesString? quote fuel rest ('\n' :: acc)
    | none =>
      match cs with
      | [] => none
      | c :: rest =>
        if c = quote then
          let run := (cs.takeWhile (· == quote)).length
          if run < 3 then linesString? quote fuel rest (c :: acc)
          else
            let inner := min (run - 3) 2
            some (String.ofList ((List.replicate inner quote ++ acc).reverse),
              cs.drop (inner + 3))
        else if c = '\\' ∧ quote = '"' then
          match lineBreak? (skipBlank rest) with
          | some more => linesString? quote fuel (skipSpace more.length more) acc
          | none =>
            match escape? rest with
            | some (c, rest) => linesString? quote fuel rest (c :: acc)
            | none => none
        else if isPlain c then linesString? quote fuel rest (c :: acc)
        else none

/-- Reads a string behind its first quote. An end of line right behind three quotes is dropped. -/
def string? (quote : Char) (cs : List Char) : Option (String × List Char) :=
  match cs with
  | a :: b :: rest =>
    if a = quote ∧ b = quote then
      linesString? quote (rest.length + 1) ((lineBreak? rest).getD rest) []
    else lineString? quote (cs.length + 1) cs []
  | _ => lineString? quote (cs.length + 1) cs []

/-- Whether a character may stand in a key without quotes. -/
def isBare (c : Char) : Bool := c.isAlphanum || c == '_' || c == '-'

/-- Reads one part of a key: a string on one line, or characters without quotes. -/
def keyPart? (cs : List Char) : Option (String × List Char) :=
  match cs with
  | '"' :: rest => lineString? '"' (rest.length + 1) rest []
  | '\'' :: rest => lineString? '\'' (rest.length + 1) rest []
  | _ =>
    let name := cs.takeWhile isBare
    if name.isEmpty then none else some (String.ofList name, cs.dropWhile isBare)

/-- Reads a key, its parts separated by points: the parts and the rest, with blanks around the
parts skipped. -/
def key? : Nat → List Char → Option (List String × List Char)
  | 0, _ => none
  | fuel + 1, cs => do
    let (part, rest) ← keyPart? (skipBlank cs)
    match skipBlank rest with
    | '.' :: rest =>
      let (parts, rest) ← key? fuel rest
      return (part :: parts, rest)
    | rest => return ([part], rest)

end OrderAdmission.Toml
