import OrderAdmission.Order.Status
import OrderAdmission.Text.Blank
import OrderAdmission.Text.LetterCase

/-!
# Spellings of statuses

Reading the free-form status texts of execution services.

A text is reduced to a *key*: white space at its ends is dropped, then underscores, hyphens and
spaces anywhere, and letters become small. The key is looked up among the known spellings. A
`StatusCache` remembers the readings of the first distinct texts up to its capacity; later texts
are read every time.
-/
namespace OrderAdmission

namespace OrderStatus

/-- Whether a character only separates the words of a status text. -/
def isSeparator (c : Char) : Bool := c == '_' || c == '-' || c == ' '

def spellingKey (cs : List Char) : List Char :=
  ((Text.trim cs).filter fun c => !isSeparator c).map Text.small

/-- The spellings of each status, as keys. -/
def spellings : List (String × OrderStatus) :=
  [("pending", pending), ("new", pending), ("pendingnew", pending),
   ("submitted", submitted), ("sent", submitted), ("live", submitted),
   ("accepted", accepted), ("acknowledged", accepted), ("ack", accepted), ("open", accepted),
   ("partiallyfilled", partiallyFilled), ("partial", partiallyFilled),
   ("partialfill", partiallyFilled),
   ("filled", filled), ("done", filled), ("executed", filled),
   ("cancelled", cancelled), ("canceled", cancelled),
   ("rejected", rejected),
   ("failed", failed), ("error", failed)]

/-- The status that a text spells, if it is a known spelling. -/
def ofSpelling? (raw : String) : Option OrderStatus :=
  spellings.lookup (String.ofList (spellingKey raw.toList))

end OrderStatus

/-- The readings of status texts that are remembered. -/
structure StatusCache where
  capacity : Nat
  /-- The remembered texts with their readings, the latest first; no text stands twice. -/
  entries : List (String × Option OrderStatus)
  deriving Repr

namespace StatusCache

/-- How many texts are remembered unless another number is given. -/
def defaultCapacity : Nat := 256

def empty (capacity : Nat) : StatusCache := { capacity, entries := [] }

def size (c : StatusCache) : Nat := c.entries.length

/-- Reads a status text, from memory if it is there, and remembers the reading if there is room. -/
def read (c : StatusCache) (raw : String) : Option OrderStatus × StatusCache :=
  match c.entries.lookup raw with
  | some known => (known, c)
  | none =>
    let status := OrderStatus.ofSpelling? raw
    if c.size < c.capacity then (status, { c with entries := (raw, status) :: c.entries })
    else (status, c)

/-- Reads a list of texts in order: the cache afterwards. -/
def readAll (c : StatusCache) (raws : List String) : StatusCache :=
  raws.foldl (fun c raw => (c.read raw).2) c

end StatusCache

end OrderAdmission
