import OrderAdmission.Config.Basic
import OrderAdmission.Error
import OrderAdmission.Probe

/-!
# The circuit breaker

The breaker guards bulk admission. Operational failures raise a count, successes lower it
by one. When a failure brings the count to the threshold the circuit opens and stays open until no
failure has been recorded for longer than the recovery timeout and the connection pool is healthy;
the first caller after that closes it. Times are readings of the wall clock in milliseconds.

The count is kept in a 32-bit word, which wraps around; whether a failure opens the circuit is
decided on the count before the failure, raised by one without wrapping.
-/
namespace OrderAdmission

inductive CircuitPhase where
  | closed
  | open_
  deriving DecidableEq, Repr, Inhabited

def CircuitPhase.name : CircuitPhase → String
  | .closed => "closed"
  | .open_ => "open"

structure Breaker where
  config : BreakerConfig
  /-- What the pool says right now, if it is watched. An admission that asks twice is told the same. -/
  pool : Option PoolHealth
  phase : CircuitPhase
  failures : UInt32
  /-- When the last failure was recorded; zero before the first. -/
  lastFailure : Int
  /-- How often the circuit has opened; it wraps around as well. -/
  trips : UInt64

namespace Breaker

def fresh (config : BreakerConfig) (pool : Option PoolHealth) : Breaker :=
  { config, pool, phase := .closed, failures := 0, lastFailure := 0, trips := 0 }

/-- When the last failure was recorded, if that was after the start of the epoch. -/
def lastFailure? (b : Breaker) : Option Int :=
  if 0 < b.lastFailure then some b.lastFailure else none

/-- The failure count that decides about opening: one more than the count, without wrapping. -/
def raisedCount (n : UInt32) : Nat := min (n.toNat + 1) (UInt32.size - 1)

def recordFailure (b : Breaker) (wall : Int) : Breaker :=
  let b' := { b with failures := b.failures + 1, lastFailure := wall }
  if b.config.failureThreshold ≤ raisedCount b.failures ∧ b.phase = .closed then
    { b' with phase := .open_, trips := b.trips + 1 }
  else b'

/-- Records a success; the count never falls below zero. -/
def recordSuccess (b : Breaker) : Breaker :=
  if b.failures = 0 then b else { b with failures := b.failures - 1 }

def poolHealthy (b : Breaker) : Bool :=
  PoolHealth.isHealthy b.config.criticalPoolUtilization b.pool

/-- The time since the last failure; a clock that was set back counts as none. -/
def quietTime (b : Breaker) (wall : Int) : Nat := (saturateSigned (wall - b.lastFailure)).toNat

/-- The rest of the quiet time that an open circuit needs. It needs one millisecond more than the
recovery timeout, which must fit a word. -/
def remaining (b : Breaker) (wall : Int) : Except Crash Nat :=
  match b.phase with
  | .closed => .ok 0
  | .open_ => do
    let needed ← checkedWord (b.config.recoveryTimeout + 1)
    return needed - b.quietTime wall

/-- Closes the circuit and forgets the failures. -/
def close (b : Breaker) : Breaker := { b with phase := .closed, failures := 0 }

/-- Whether bulk work may proceed. An open circuit whose quiet time is over closes if the pool is
healthy. -/
def allow (b : Breaker) (wall : Int) : Except Crash (Bool × Breaker) :=
  match b.phase with
  | .closed => .ok (true, b)
  | .open_ => do
    let rest ← b.remaining wall
    if 0 < rest then return (false, b)
    else if b.poolHealthy then return (true, b.close)
    else return (false, b)

/-- Milliseconds in seconds, rounded up and at least one. -/
def hintSeconds (ms : Nat) : Nat := max 1 ((ms + 999) / 1000)

/-- Admits bulk work if the breaker allows it and the pool is healthy. An unhealthy pool in front
of a closed circuit counts as a failure. One admission goes by one reading of the wall clock and of the
pool, however often it looks at them. -/
def admitBulk (b : Breaker) (wall : Int) : Except Crash (Except GateError Unit × Breaker) := do
  let (allowed, b) ← b.allow wall
  if !allowed then
    let rest ← b.remaining wall
    return (.error (.circuitOpen b.failures.toNat (hintSeconds rest)), b)
  else if !b.poolHealthy then
    return (.error (.overloaded (hintSeconds b.config.recoveryTimeout)), b.recordFailure wall)
  else return (.ok (), b)

end Breaker

/-- What a piece of work tells the breaker. -/
inductive Report where
  | success
  | failure
  deriving DecidableEq, Repr

def Breaker.record (b : Breaker) (wall : Int) : Report → Breaker
  | .success => b.recordSuccess
  | .failure => b.recordFailure wall

end OrderAdmission
