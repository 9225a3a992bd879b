import OrderAdmission.Toml.Moment
import OrderAdmission.Toml.Numeral
import OrderAdmission.Toml.Tree

/-!
# TOML text to documents

Reading a TOML document. What is read becomes a JSON document: tables become objects, and a date or
a time becomes its text.
-/
namespace OrderAdmission.Toml

/-- Reads a word that must stand here. -/
def word? (word : String) (j : Json) (cs : List Char) : Option (Json × List Char) :=
  let w := word.toList
  if cs.take w.length = w then some (j, cs.drop w.length) else none

def scalar? (cs : List Char) : Option (Json × List Char) :=
  match cs with
  | '"' :: rest => (string? '"' rest).map fun (s, rest) => (.str s, rest)
  | '\'' :: rest => (string? '\'' rest).map fun (s, rest) => (.str s, rest)
  | 't' :: _ => word? "true" (.bool true) cs
  | 'f' :: _ => word? "false" (.bool false) cs
  | _ =>
    match moment? cs with
    | some (s, rest) => some (.str s, rest)
    | none => number? cs

mutual

/-- Reads a value. The fuel bounds the number of values on the way, the depth how far they may
still nest. -/
def value? : Nat → Nat → List Char → Option (Json × List Char)
  | 0, _, _ => none
  | fuel + 1, depth, cs =>
    match cs with
    | '[' :: rest =>
      if depth = 0 then none
      else
        (items? fuel (depth - 1) (skipLines rest.length rest)).map fun (xs, rest) => (.arr xs, rest)
    | '\x7b' :: rest =>
      if depth = 0 then none
      else
        match skipBlank rest with
        | '\x7d' :: rest => some (.obj [], rest)
        | rest =>
          (pairs? fuel (depth - 1) rest []).map fun (ms, rest) => (.obj (Tree.membersJson ms), rest)
    | _ => scalar? cs

/-- Reads the items of an array up to its closing bracket; a comma may stand before it. -/
def items? : Nat → Nat → List Char → Option (List Json × List Char)
  | 0, _, _ => none
  | fuel + 1, depth, cs =>
    match cs with
    | ']' :: rest => some ([], rest)
    | _ =>
      match value? fuel depth cs with
      | none => none
      | some (x, rest) =>
        match skipLines rest.length rest with
        | ']' :: rest => some ([x], rest)
        | ',' :: rest =>
          (items? fuel depth (skipLines rest.length rest)).map fun (xs, rest) => (x :: xs, rest)
        | _ => none

/-- Reads the pairs of a table on one line up to its closing brace. -/
def pairs? : Nat → Nat → List Char → Members → Option (Members × List Char)
  | 0, _, _, _ => none
  | fuel + 1, depth, cs, ms =>
    match key? (cs.length + 1) cs with
    | some (key, '=' :: rest) =>
      match value? fuel depth (skipBlank rest) with
      | none => none
      | some (x, rest) =>
        match Tree.put? key x ms with
        | none => none
        | some ms =>
          match skipBlank rest with
          | '\x7d' :: rest => some (ms, rest)
          | ',' :: rest => pairs? fuel depth rest ms
          | _ => none
    | _ => none

end

/-- How deep values may nest. -/
def maxDepth : Nat := 79

/-- A document as far as it has been read: the header that pairs belong to, and all tables. -/
structure Reading where
  header : List String
  members : Members

/-- Reads one line behind its blanks: a header of a list of tables, a header of a table, or a
pair. -/
def line? (r : Reading) (cs : List Char) : Option (Reading × List Char) :=
  match cs with
  | '[' :: '[' :: rest => do
    match ← key? (rest.length + 1) rest with
    | (header, ']' :: ']' :: rest) =>
      return ({ header, members := ← Tree.openNext? header r.members }, ← lineEnd? rest)
    | _ => none
  | '[' :: rest => do
    match ← key? (rest.length + 1) rest with
    | (header, ']' :: rest) =>
      return ({ header, members := ← Tree.open? header r.members }, ← lineEnd? rest)
    | _ => none
  | _ => do
    match ← key? (cs.length + 1) cs with
    | (key, '=' :: rest) =>
      let (x, rest) ← value? (2 * rest.length + 2) maxDepth (skipBlank rest)
      return ({ r with members := ← Tree.at? (Tree.put? key x) r.header r.members },
        ← lineEnd? rest)
    | _ => none

/-- Reads lines up to the end of the document. -/
def lines? : Nat → Reading → List Char → Option Reading
  | 0, _, _ => none
  | fuel + 1, r, cs =>
    match skipLines cs.length cs with
    | [] => some r
    | rest =>
      match line? r rest with
      | none => none
      | some (r, rest) => lines? fuel r rest

/-- Reads a document; a mark of the byte order may stand in front. -/
def read? (s : String) : Option Json :=
  let cs := match s.toList with
    | '\ufeff' :: rest => rest
    | cs => cs
  (lines? (cs.length + 1) { header := [], members := [] } cs).map fun r =>
    .obj (Tree.membersJson r.members)

end OrderAdmission.Toml
