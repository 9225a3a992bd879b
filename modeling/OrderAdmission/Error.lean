import OrderAdmission.Downstream
import OrderAdmission.Order.Basic

/-!
# Errors of an admission

The errors of an admission, as causes, and how they are said in words.

`GateError.message` is the wording, `GateError.retryable` whether the same request may be sent
again unchanged, and `GateError.retryAfter` the wait that some of them suggest.
-/
namespace OrderAdmission

inductive Invalid where
  | emptyClientId (order : Int)
  | emptySymbol (order : Int)
  | quantityNotPositive (order : Int) (quantity : Number.Decimal)
  | missingPrice (order : Int)
  | repeatedOrder (order : Int)
  | repeatedUpdate (order : Int)
  | repeatedTask (index : Nat)
  | taskOutOfRange (index size : Nat)
  /-- Any other reason, in words. -/
  | stated (reason : String)
  deriving DecidableEq, Repr

def Invalid.text : Invalid → String
  | emptyClientId id => s!"order {id} has empty client order id"
  | emptySymbol id => s!"order {id} has empty symbol"
  | quantityNotPositive id q => s!"order {id} has non-positive quantity {q.text}"
  | missingPrice id => s!"limit order {id} has no price"
  | repeatedOrder id => s!"order {id} appears more than once in the batch"
  | repeatedUpdate id => s!"order {id} appears more than once in one update batch"
  | repeatedTask i => s!"duplicate task index {i}"
  | taskOutOfRange i n => s!"task index {i} out of range for batch of {n}"
  | stated reason => reason

inductive DatabaseError where
  /-- It sent something that makes no sense. -/
  | unexpectedData (what : String)
  | addressWithoutScheme
  | noConnection
  | poolClosed
  deriving DecidableEq, Repr

def DatabaseError.text : DatabaseError → String
  | unexpectedData what => s!"encountered unexpected or invalid data: {what}"
  | addressWithoutScheme => "error with configuration: relative URL without a base"
  | noConnection => "pool timed out while waiting for an open connection"
  | poolClosed => "attempted to acquire a connection on a closed pool"

inductive GateError where
  /-- Some resource is used up, or the pool is unhealthy. -/
  | overloaded (retryAfter : Nat)
  | circuitOpen (failures : Nat) (retryAfter : Nat)
  | permitTimeout (waited : Nat)
  /-- `retryable` is the retry policy's verdict on the failure. -/
  | downstream (failure : DownstreamFailure) (retryable : Bool)
  /-- A row did not have the expected version. -/
  | versionConflict (order expectedVersion : Int)
  /-- A row was changed more than once by one update. -/
  | rowCount (order : Int) (affected : Nat)
  | database (reason : DatabaseError)
  | migration (reason : String)
  | configuration (reason : String)
  | invalid (reason : Invalid)
  | timeout (what : String)
  | io (reason : String)
  | internal (reason : String)
  | other (reason : String)
  deriving DecidableEq, Repr

namespace GateError

/-- A status write that took longer than its transaction may. -/
def writeTimeout (limit : Nat) : GateError :=
  timeout s!"status update transaction exceeded {limit}ms"

/-- A store that answered with the wrong number of row counts. -/
def rowCountsMissing (counts updates : Nat) : GateError :=
  internal s!"store returned {counts} row counts for {updates} updates"

def message : GateError → String
  | overloaded secs => s!"System overloaded, retry after {secs}s"
  | circuitOpen n secs => s!"Circuit breaker open ({n} failures), retry after {secs}s"
  | permitTimeout ms => s!"Permit not acquired within {ms}ms"
  | downstream f _ => s!"Downstream submission failed: {f.text}"
  | versionConflict id v => s!"Optimistic lock conflict on order {id} (expected version {v})"
  | rowCount id n => s!"Unexpected affected row count {n} for order {id}"
  | database reason => s!"Database error: {reason.text}"
  | migration reason => s!"Migration error: {reason}"
  | configuration reason => s!"Configuration error: {reason}"
  | invalid reason => s!"Validation failed: {reason.text}"
  | timeout what => s!"Timed out: {what}"
  | io reason => s!"IO error: {reason}"
  | internal reason => s!"Internal error: {reason}"
  | other reason => reason

/-- Whether the caller may send the same request again unchanged. -/
def retryable : GateError → Bool
  | overloaded _ | circuitOpen _ _ | permitTimeout _ | timeout _ => true
  | downstream _ retryable => retryable
  | _ => false

/-- The suggested wait before another attempt, in seconds. -/
def retryAfter : GateError → Option Nat
  | overloaded secs => some secs
  | circuitOpen _ secs => some secs
  | _ => none

end GateError

end OrderAdmission
