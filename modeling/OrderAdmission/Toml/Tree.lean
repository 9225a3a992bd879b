import OrderAdmission.Json.Value

/-!
# Tables of TOML

The tables of a TOML document while it is read.

A table is *stated* by a header, *implied* by a header of a table inside it, or *dotted*, written
as part of a key. A document may not state a table twice, and may not add to a table by dotted keys
unless they have made it. `Tree.put?` and `Tree.open?` are these rules.
-/
namespace OrderAdmission.Toml

/-- How a table has come into the document. -/
inductive Origin where
  | stated
  | implied
  | dotted
  deriving DecidableEq, Repr

/-- What stands under a key. -/
inductive Tree where
  | value (content : Json)
  | table (origin : Origin) (members : List (String × Tree))
  /-- A list of stated tables, the latest last. -/
  | tables (items : List (List (String × Tree)))

abbrev Members := List (String × Tree)

/-- Puts a tree under a key, in the place of what stands there. -/
def Members.set (ms : Members) (key : String) (t : Tree) : Members :=
  match ms with
  | [] => [(key, t)]
  | (k, u) :: rest => if k = key then (key, t) :: rest else (k, u) :: Members.set rest key t

namespace Tree

/-- Changes the last of a list of tables. -/
def changeLast? (change : Members → Option Members) : List Members → Option (List Members)
  | [] => none
  | [ms] => (change ms).map fun ms => [ms]
  | ms :: rest => (changeLast? change rest).map (ms :: ·)

/-- Changes the table that a header names; tables on the way are implied. In a list of tables it is
the latest. -/
def at? (change : Members → Option Members) : List String → Members → Option Members
  | [], ms => change ms
  | key :: path, ms =>
    match ms.lookup key with
    | none => (at? change path []).map fun inner => ms.set key (.table .implied inner)
    | some (table origin inner) =>
      (at? change path inner).map fun inner => ms.set key (.table origin inner)
    | some (tables items) =>
      (changeLast? (at? change path) items).map fun items => ms.set key (.tables items)
    | some (value _) => none

/-- Adds a value under a new key. -/
def add? (key : String) (content : Json) (ms : Members) : Option Members :=
  match ms.lookup key with
  | none => some (ms ++ [(key, value content)])
  | some _ => none

/-- Adds a value under a dotted key. The table it comes to must be dotted itself, and the tables on
the way must not be stated. -/
def addDotted? (last : String) (content : Json) : List String → Origin → Members → Option Members
  | [], origin, ms => if origin = .dotted then add? last content ms else none
  | key :: path, _, ms =>
    match ms.lookup key with
    | none =>
      (addDotted? last content path .dotted []).map fun inner => ms.set key (.table .dotted inner)
    | some (table .stated _) => none
    | some (table origin inner) =>
      (addDotted? last content path origin inner).map fun inner => ms.set key (.table origin inner)
    | some (tables items) =>
      (changeLast? (addDotted? last content path .stated) items).map fun items =>
        ms.set key (.tables items)
    | some (value _) => none

/-- Adds a value to a table under a key with one part or more. -/
def put? (key : List String) (content : Json) (ms : Members) : Option Members :=
  match key.getLast? with
  | none => none
  | some last =>
    if key.length = 1 then add? last content ms
    else addDotted? last content key.dropLast .stated ms

/-- States the table of a header. -/
def open? (header : List String) (ms : Members) : Option Members :=
  match header.getLast? with
  | none => none
  | some last =>
    at? (fun ms => match ms.lookup last with
      | none => some (ms ++ [(last, .table .stated [])])
      | some (table .implied inner) => some (ms.set last (.table .stated inner))
      | some _ => none) header.dropLast ms

/-- Begins a new table in the list of a header. -/
def openNext? (header : List String) (ms : Members) : Option Members :=
  match header.getLast? with
  | none => none
  | some last =>
    at? (fun ms => match ms.lookup last with
      | none => some (ms ++ [(last, .tables [[]])])
      | some (tables items) => some (ms.set last (.tables (items ++ [[]])))
      | some _ => none) header.dropLast ms

mutual

def toJson : Tree → Json
  | value content => content
  | table _ members => .obj (membersJson members)
  | tables items => .arr (itemsJson items)

def membersJson : List (String × Tree) → List (String × Json)
  | [] => []
  | (key, t) :: rest => (key, toJson t) :: membersJson rest

def itemsJson : List (List (String × Tree)) → List Json
  | [] => []
  | ms :: rest => .obj (membersJson ms) :: itemsJson rest

end

end Tree

end OrderAdmission.Toml
