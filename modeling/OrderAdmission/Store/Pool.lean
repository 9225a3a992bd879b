import OrderAdmission.Config.Basic
import OrderAdmission.Crash
import OrderAdmission.Error
import OrderAdmission.Probe

/-!
# Connection pools

A pool of database connections that has not made any connection: nobody answers at its address.
What it says about itself is what the breaker looks at, and work that needs a connection fails.
-/
namespace OrderAdmission

/-- A connection pool without connections. -/
structure ConnectionPool where
  maxConnections : Nat
  closed : Bool
  deriving DecidableEq, Repr

namespace ConnectionPool

/-- An open pool. A pool must have room for a connection. -/
def create (maxConnections : Nat) : Except Crash ConnectionPool :=
  if maxConnections = 0 then .error .overflow else .ok { maxConnections, closed := false }

def close (p : ConnectionPool) : ConnectionPool := { p with closed := true }

/-- What the pool says about itself: none of its connections is in use, and nobody waits. -/
def health (p : ConnectionPool) : PoolHealth :=
  { utilization :=
      if p.maxConnections = 0 then .error (.unavailable "pool has no connections")
      else .ok (0.0 / Number.ofWord p.maxConnections)
    waiting := if p.closed then .error (.unavailable "pool closed") else .ok 0 }

def connect (p : ConnectionPool) : Except GateError Unit :=
  .error (.database (if p.closed then .poolClosed else .noConnection))

/-- Stores this many orders; for none, no connection is needed. -/
def register (p : ConnectionPool) (orders : Nat) : Except GateError Nat :=
  if orders = 0 then .ok 0 else p.connect.map fun () => orders

end ConnectionPool

/-- Whether an address begins with the name of a scheme. -/
def hasScheme (address : String) : Bool :=
  match address.toList.dropWhile (fun c => c.toNat ≤ 32) with
  | c :: rest =>
    let more := rest.dropWhile fun c => c.isAlphanum || c == '+' || c == '-' || c == '.'
    c.isAlpha && more.head? == some ':'
  | [] => false

/-- Connects to a database. Nobody answers; before that, its address must make sense. -/
def DatabaseConfig.connect (c : DatabaseConfig) : Except GateError ConnectionPool :=
  .error (.database (if hasScheme c.url then .noConnection else .addressWithoutScheme))

end OrderAdmission
