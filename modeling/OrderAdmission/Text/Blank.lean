/-!
# White space

White space of Unicode: the characters with the property `White_Space`, trimming by it and cutting
a line into words at it.
-/
namespace OrderAdmission.Text

/-- The characters with the Unicode property `White_Space`. -/
def isBlank (c : Char) : Bool :=
  let n := c.toNat
  (9 ≤ n && n ≤ 13) || n == 32 || n == 0x85 || n == 0xA0 || n == 0x1680 ||
    (0x2000 ≤ n && n ≤ 0x200A) || n == 0x2028 || n == 0x2029 || n == 0x202F || n == 0x205F ||
    n == 0x3000

/-- The text without the white space at its two ends. -/
def trim (cs : List Char) : List Char :=
  ((cs.dropWhile isBlank).reverse.dropWhile isBlank).reverse

/-- Whether a text holds nothing but white space. -/
def allBlank (s : String) : Bool := s.toList.all isBlank

/-- The words of a text: its longest pieces without white space, in order. -/
def words (cs : List Char) : List (List Char) :=
  let (word, rest) := cs.foldr
    (fun c (word, rest) =>
      if isBlank c then ([], if word.isEmpty then rest else word :: rest) else (c :: word, rest))
    (([], []) : List Char × List (List Char))
  if word.isEmpty then rest else word :: rest

/-- The lines of a text. A line feed ends a line, a carriage return right before it belongs to
the ending, and an empty piece after the last line feed is no line. -/
def lines (cs : List Char) : List (List Char) :=
  let (line, rest) := cs.foldr
    (fun c (line, rest) => if c == '\n' then ([], line :: rest) else (c :: line, rest))
    (([], []) : List Char × List (List Char))
  let dropReturn (l : List Char) : List Char :=
    if l.getLast? == some '\r' then l.dropLast else l
  let pieces := line :: rest
  let ended := pieces.dropLast.map dropReturn
  match pieces.getLast? with
  | some (c :: cs) => ended ++ [c :: cs]
  | _ => ended

end OrderAdmission.Text
