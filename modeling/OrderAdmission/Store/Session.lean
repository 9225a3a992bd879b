import OrderAdmission.Store.Table

/-!
# Transactions by hand

Transactions by hand on the table of stored orders.

A transaction holds the table from its beginning until it commits, rolls back or is dropped, so
that at most one is open. Everything else that needs the table waits as long as one is open.
-/
namespace OrderAdmission

/-- A table, and the open transaction with its name and what it has staged. -/
structure Session where
  table : Table
  /-- The time that one statement takes. -/
  latency : Nat
  current : Option (String × Table)

namespace Session

def isHeld (s : Session) : Bool := s.current.isSome

/-- The staged rows of the transaction with this name, if it is open. -/
def staged? (s : Session) (name : String) : Option Table :=
  match s.current with
  | some (n, staged) => if n = name then some staged else none
  | none => none

/-- Begins a transaction, or nothing while the table is held. -/
def begin? (s : Session) (name : String) : Option Session :=
  if s.isHeld then none else some { s with current := some (name, []) }

/-- Makes a statement of the open transaction: the row counts, or a crash after which the
transaction is still open. -/
def apply (s : Session) (name : String) (staged : Table) (updates : List StatusUpdate) :
    Session × Except Crash (List Nat) :=
  let (staged, counts) := s.table.stageAll staged updates
  ({ s with current := some (name, staged) }, counts)

/-- Commits what the open transaction has staged. -/
def commit (s : Session) (staged : Table) : Session :=
  { s with table := s.table.commit staged, current := none }

/-- Ends the open transaction without writing anything. -/
def rollback (s : Session) : Session := { s with current := none }

/-- Registers orders, or nothing while the table is held. -/
def register? (s : Session) (orders : List Order) : Option (Nat × Session) :=
  if s.isHeld then none
  else
    let (table, n) := s.table.register orders
    some (n, { s with table })

end Session

end OrderAdmission
