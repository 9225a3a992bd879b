import OrderAdmission.Probe

/-!
# The limiter

A limiter has a fixed number of permits and hands them out first come, first served.

Whoever finds no free permit queues under a number of its own. A permit that comes back goes to
the head of the queue, which is then *granted* it: the permit is no longer free, and it is in use
as soon as its holder takes it up.
-/
namespace OrderAdmission

structure Limiter where
  capacity : Nat
  patience : Nat
  free : Nat
  inFlight : Nat
  /-- Who waits, in order of arrival. -/
  queue : List Nat
  /-- Who has been given a permit and has not taken it up. -/
  granted : List Nat
  deriving DecidableEq, Repr, Inhabited

namespace Limiter

/-- The largest number of permits that a limiter can have. -/
def maxCapacity : Nat := 0x1FFFFFFFFFFFFFFF

def full (capacity patience : Nat) : Limiter :=
  { capacity, patience, free := capacity, inFlight := 0, queue := [], granted := [] }

/-- Takes a free permit, if nobody is ahead. -/
def take? (l : Limiter) : Option Limiter :=
  if 0 < l.free ∧ l.queue = [] then
    some { l with free := l.free - 1, inFlight := l.inFlight + 1 }
  else none

def join (l : Limiter) (who : Nat) : Limiter := { l with queue := l.queue ++ [who] }

/-- A permit becomes available: the head of the queue is granted it, and without a queue it is
free. -/
def yield (l : Limiter) : Limiter :=
  match l.queue with
  | [] => { l with free := l.free + 1 }
  | who :: rest => { l with queue := rest, granted := who :: l.granted }

def hasGrant (l : Limiter) (who : Nat) : Bool := l.granted.contains who

def claim (l : Limiter) (who : Nat) : Limiter :=
  { l with granted := l.granted.erase who, inFlight := l.inFlight + 1 }

/-- Gives a permit in use back. -/
def release (l : Limiter) : Limiter := { l with inFlight := l.inFlight - 1 }.yield

/-- Stops waiting: a granted permit goes on to the next, and a place in the queue is given up. -/
def withdraw (l : Limiter) (who : Nat) : Limiter :=
  if l.hasGrant who then { l with granted := l.granted.erase who }.yield
  else { l with queue := l.queue.erase who }

/-- The share of the permits that is not free. -/
def utilization (l : Limiter) : Reading :=
  if l.capacity = 0 then .error (.unavailable "limiter has no permits")
  else .ok (Number.ofWord (l.capacity - l.free) / Number.ofWord l.capacity)

end Limiter

end OrderAdmission
