/-!
# JSON documents

JSON documents as values.

Whole numbers and binary numbers are kept apart, because `5` and `5.0` are different documents to
a reader that wants an integer. An object is a list of members whose names differ.
-/
namespace OrderAdmission

inductive Json where
  | null
  | bool (value : Bool)
  | int (value : Int)
  | float (value : Float)
  | str (value : String)
  | arr (items : List Json)
  | obj (members : List (String × Json))
  deriving Repr, Inhabited

namespace Json

/-- Puts a member into an object's members; one of that name is replaced where it stands. -/
def putMember (name : String) (value : Json) : List (String × Json) → List (String × Json)
  | [] => [(name, value)]
  | (n, v) :: rest =>
    if n = name then (n, value) :: rest else (n, v) :: putMember name value rest

/-- The member of an object with this name. Other documents have no members. -/
def get? (j : Json) (name : String) : Option Json :=
  match j with
  | obj members => members.lookup name
  | _ => none

def isObj : Json → Bool
  | obj _ => true
  | _ => false

/-- A document for a value that may be missing, `null` where it is. -/
def ofOption {α : Type} (f : α → Json) : Option α → Json
  | some a => f a
  | none => null

end Json

end OrderAdmission
