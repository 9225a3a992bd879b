import OrderAdmission.Engine.Basic

/-!
# Views of a journal

A journal is read for the calls to the service, the calls to the store, and the starts of the tasks
of a batch.

Things that happen at one instant are told in an order that does not depend on who was first: bulk
calls before calls for one order, and then by the id or the position.
-/
namespace OrderAdmission

inductive ServiceCall where
  | bulk (orders : List Int)
  | single (order : Int)
  deriving DecidableEq, Repr

namespace ServiceCall

/-- The place of a call among those of one instant. -/
def rank : ServiceCall → Nat × Int
  | bulk _ => (0, 0)
  | single id => (1, id)

end ServiceCall

/-- The start of a task: when, its position in its batch, and how many tasks then were at work. -/
structure TaskStart where
  time : Nat
  position : Nat
  inFlight : Nat
  deriving DecidableEq, Repr

namespace Entry

variable {P R : Type}

def taskStart? (x : Entry P R) : Option TaskStart :=
  match x.event with
  | .singleCalled _ position _ inFlight => some { time := x.time, position, inFlight }
  | _ => none

def storeCall? (x : Entry P R) : Option StoreCall :=
  match x.event with
  | .stored _ call => some call
  | _ => none

/-- A call to the service, and when it was made. -/
def serviceCall? (x : Entry Order R) : Option (Nat × ServiceCall) :=
  match x.event with
  | .bulkCalled _ orders => some (x.time, .bulk (orders.map (·.id)))
  | .singleCalled _ _ order _ => some (x.time, .single order.id)
  | _ => none

end Entry

namespace Engine

variable {P R : Type}

/-- What has happened since the journal had this length, the earliest first. -/
def since (e : Engine P R) (length : Nat) : List (Entry P R) :=
  (e.journal.take (e.journal.length - length)).reverse

end Engine

namespace TaskStart

/-- Starts by time, and by position at one time. -/
def sort (starts : List TaskStart) : List TaskStart :=
  starts.mergeSort fun a b => a.time < b.time || (a.time == b.time && a.position ≤ b.position)

/-- The largest number of tasks that were at work when one began. -/
def peak (starts : List TaskStart) : Nat := starts.foldl (fun m s => max m s.inFlight) 0

end TaskStart

/-- Calls to the service by time, and by rank at one time. -/
def ServiceCall.sort (calls : List (Nat × ServiceCall)) : List (Nat × ServiceCall) :=
  calls.mergeSort fun (t, c) (t', c') =>
    t < t' || (t == t' &&
      (c.rank.1 < c'.rank.1 || (c.rank.1 == c'.rank.1 && c.rank.2 ≤ c'.rank.2)))

end OrderAdmission
