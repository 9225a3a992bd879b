/-!
# Statuses

The status of an order, from its creation to a final state, and the spellings under which
execution services report it.
-/
namespace OrderAdmission

/-- Where an order stands. -/
inductive OrderStatus where
  /-- Created, not yet submitted. -/
  | pending
  /-- Handed to the execution service. -/
  | submitted
  /-- Confirmed as working by the execution service. -/
  | accepted
  | partiallyFilled
  | filled
  | cancelled
  /-- Refused downstream. -/
  | rejected
  /-- Ended by an internal error. -/
  | failed
  deriving DecidableEq, Repr, Inhabited

namespace OrderStatus

def all : List OrderStatus :=
  [pending, submitted, accepted, partiallyFilled, filled, cancelled, rejected, failed]

def name : OrderStatus → String
  | pending => "PENDING"
  | submitted => "SUBMITTED"
  | accepted => "ACCEPTED"
  | partiallyFilled => "PARTIALLY_FILLED"
  | filled => "FILLED"
  | cancelled => "CANCELLED"
  | rejected => "REJECTED"
  | failed => "FAILED"

def isFinal : OrderStatus → Bool
  | filled | cancelled | rejected | failed => true
  | _ => false

end OrderStatus

end OrderAdmission
