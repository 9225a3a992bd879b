import OrderAdmission.Json.Value
import OrderAdmission.Crash

/-!
# Values from JSON documents

Reading values out of JSON documents.

A record is written as an object or as the array of its fields in their order. Members that the
record does not have are passed over in an object and refused in an array. A field is *required*,
*optional* (a missing member of an object counts as `null`, a missing item does not), or has a
*default*. An alternative without content is written as its name or as an object that gives the
name the content `null`; an alternative with content is an object with that one member.
-/
namespace OrderAdmission.Json

/-- The fields of a record as a document gives them. -/
inductive Fields where
  | named (members : List (String × Json))
  | listed (items : List Json)

/-- The fields of a record with at most `count` of them. -/
def fields? (count : Nat) : Json → Option Fields
  | obj members => some (.named members)
  | arr items => if items.length ≤ count then some (.listed items) else none
  | _ => none

/-- What the document gives for the field at `position` with this name. -/
def Fields.get? (f : Fields) (position : Nat) (name : String) : Option Json :=
  match f with
  | named members => members.lookup name
  | listed items => items[position]?

/-- A field that must be there. -/
def Fields.required {α : Type} (f : Fields) (read : Json → Option α) (position : Nat)
    (name : String) : Option α :=
  (f.get? position name).bind read

/-- A field that is read from `default` where it is missing. -/
def Fields.withDefault {α : Type} (f : Fields) (read : Json → Option α) (default : α)
    (position : Nat) (name : String) : Option α :=
  match f.get? position name with
  | some j => read j
  | none => some default

/-- A value that may be `null`. -/
def nullable {α : Type} (read : Json → Option α) : Json → Option (Option α)
  | null => some none
  | j => (read j).map some

/-- A field that may be `null`, or missing from an object. -/
def Fields.optional {α : Type} (f : Fields) (read : Json → Option α) (position : Nat)
    (name : String) : Option (Option α) :=
  match f, f.get? position name with
  | _, some j => nullable read j
  | .named _, none => some none
  | .listed _, none => none

def asBool : Json → Option Bool
  | bool b => some b
  | _ => none

def asText : Json → Option String
  | str s => some s
  | _ => none

/-- An integer in a range. -/
def asIntIn (low high : Int) : Json → Option Int
  | int n => if low ≤ n ∧ n ≤ high then some n else none
  | _ => none

/-- An integer of a signed 64-bit word. -/
def asSigned : Json → Option Int := asIntIn minSigned maxSigned

/-- A natural number with at most this many bits. -/
def asNat (bits : Nat) (j : Json) : Option Nat := (asIntIn 0 (Nat.pow 2 bits - 1) j).map Int.toNat

/-- A number, whole or not, as a binary number. -/
def asFloat : Json → Option Float
  | float x => some x
  | int n => some (if n < 0 then -(Float.ofNat n.natAbs) else Float.ofNat n.natAbs)
  | _ => none

def asList {α : Type} (read : Json → Option α) : Json → Option (List α)
  | arr items => items.mapM read
  | _ => none

/-- The name and the content of an alternative. -/
def asVariant : Json → Option (String × Option Json)
  | str s => some (s, none)
  | obj [(name, content)] => some (name, some content)
  | _ => none

/-- An alternative without content, from a table of names. -/
def asName {α : Type} (names : List (String × α)) (j : Json) : Option α :=
  match asVariant j with
  | some (name, none) => names.lookup name
  | some (name, some null) => names.lookup name
  | _ => none

end OrderAdmission.Json
