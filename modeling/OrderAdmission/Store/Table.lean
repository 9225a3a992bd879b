import OrderAdmission.Batch
import OrderAdmission.Crash

/-!
# The table of stored orders

The table has a row for each stored order; a transaction has rows *staged* on top of it.

An update changes a row only if the row has the expected version, and raises the version by one.
A transaction reads its own staged rows first; they reach the table when it commits. Raising the
largest version there is crashes: what was staged before stays staged.
-/
namespace OrderAdmission

/-- One stored order. -/
structure StoredRow where
  status : OrderStatus
  version : Int
  extra : Option Json
  deriving Repr, Inhabited

/-- A row as it is first stored. -/
def StoredRow.pending (version : Int) : StoredRow := { status := .pending, version, extra := none }

/-- The row after an update: the new status, the next version, and what the update says beside
the status, or else what stood there. -/
def StoredRow.update (row : StoredRow) (u : StatusUpdate) : StoredRow :=
  { status := u.status, version := row.version + 1, extra := u.extra <|> row.extra }

/-- Rows under their order ids; the first entry of an id is its row. -/
abbrev Table := List (Int × StoredRow)

namespace Table

def get? (t : Table) (id : Int) : Option StoredRow := t.lookup id

/-- Stores a row, in the place of the one that the order has. -/
def put (t : Table) (id : Int) (row : StoredRow) : Table :=
  match t with
  | [] => [(id, row)]
  | (i, r) :: rest => if i = id then (i, row) :: rest else (i, r) :: put rest id row

def size (t : Table) : Nat := t.length

/-- Pending rows at version zero, one for each different id. -/
def ofIds (ids : List Int) : Table := ids.foldl (fun t id => t.put id (.pending 0)) []

/-- Stores an order that has no row yet, as pending. -/
def registerOne (t : Table) (o : Order) : Table × Nat :=
  match t.get? o.id with
  | some _ => (t, 0)
  | none => (t.put o.id (.pending o.version), 1)

/-- Stores the orders that have no row yet: the table and how many were stored. -/
def register (t : Table) (orders : List Order) : Table × Nat :=
  orders.foldl (fun (t, n) o => let (t, k) := t.registerOne o; (t, n + k)) (t, 0)

/-- The table with staged rows written over it. -/
def commit (t staged : Table) : Table := staged.foldl (fun t (id, row) => t.put id row) t

/-- The row that a transaction sees: its own staged one, or else the table's. -/
def seen (t staged : Table) (id : Int) : Option StoredRow := staged.get? id <|> t.get? id

/-- Stages one update: the staged rows and the number of rows that changed. -/
def stage (t staged : Table) (u : StatusUpdate) : Table × Except Crash Nat :=
  match t.seen staged u.orderId with
  | some row =>
    if row.version = u.expectedVersion then
      if row.version < maxSigned then (staged.put u.orderId (row.update u), .ok 1)
      else (staged, .error .overflow)
    else (staged, .ok 0)
  | none => (staged, .ok 0)

/-- Stages updates one after another: the staged rows and the row counts. -/
def stageAll (t staged : Table) : List StatusUpdate → Table × Except Crash (List Nat)
  | [] => (staged, .ok [])
  | u :: rest =>
    match t.stage staged u with
    | (staged, .error e) => (staged, .error e)
    | (staged, .ok n) =>
      match t.stageAll staged rest with
      | (staged, .error e) => (staged, .error e)
      | (staged, .ok ns) => (staged, .ok (n :: ns))

end Table

/-- Every row of a statement must have changed exactly once. -/
def checkCounts : List StatusUpdate → List Nat → Except GateError Unit
  | u :: us, n :: ns =>
    if n = 1 then checkCounts us ns
    else if n = 0 then .error (.versionConflict u.orderId u.expectedVersion)
    else .error (.rowCount u.orderId n)
  | _, _ => .ok ()

/-- Checks the answer to a statement: one count for each update, and each of them one. -/
def checkStatement (updates : List StatusUpdate) (counts : List Nat) : Except GateError Unit :=
  if counts.length = updates.length then checkCounts updates counts
  else .error (.rowCountsMissing counts.length updates.length)

/-- A list cut into pieces of `n + 1` items, the last one perhaps shorter. -/
def piecesOf {α : Type} (n : Nat) : List α → List (List α)
  | [] => []
  | x :: xs => (x :: xs.take n) :: piecesOf n (xs.drop n)
termination_by xs => xs.length
decreasing_by simp only [List.length_drop, List.length_cons]; omega

/-- A list cut into chunks of this size; a size of zero counts as one. -/
def chunksOf {α : Type} (size : Nat) (xs : List α) : List (List α) := piecesOf (size - 1) xs

end OrderAdmission
