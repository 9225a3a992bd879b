/-!
# Answers of the execution service

The answers of the execution service: acknowledgements and failures.

A failure says what class it belongs to. Retry and fallback look at the class and at the status
code, never at the message.
-/
namespace OrderAdmission

inductive FailureClass where
  | connectivity
  | timeout
  | unavailable
  /-- Anything else, such as a refused order. -/
  | other
  deriving DecidableEq, Repr, Inhabited

namespace FailureClass

def all : List FailureClass := [connectivity, timeout, unavailable, other]

def name : FailureClass → String
  | connectivity => "connectivity"
  | timeout => "timeout"
  | unavailable => "unavailable"
  | other => "other"

/-- Whether the class is about the way to the service and not about the request. -/
def isTransient : FailureClass → Bool
  | other => false
  | _ => true

end FailureClass

structure DownstreamFailure where
  status : Option Nat
  kind : FailureClass
  message : String
  deriving DecidableEq, Repr, Inhabited

namespace DownstreamFailure

/-- The failure of a call that took too long. -/
def timedOut (message : String) : DownstreamFailure :=
  { status := none, kind := .timeout, message }

/-- A failure in words: its status code if it has one, its class and its message. -/
def text (f : DownstreamFailure) : String :=
  match f.status with
  | some code => s!"HTTP {code} ({f.kind.name}): {f.message}"
  | none => s!"{f.kind.name}: {f.message}"

end DownstreamFailure

/-- The service's word that it has taken an order. -/
structure Acknowledgement where
  reference : String
  /-- The status as the service spells it. -/
  status : String
  deriving DecidableEq, Repr, Inhabited

end OrderAdmission
