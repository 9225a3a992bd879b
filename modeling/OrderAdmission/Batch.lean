import OrderAdmission.Error
import OrderAdmission.Text.Blank

/-!
# Batches

The tasks of a batch are numbered by position. Their outcomes come in that order, with the counts
of successes and failures.
-/
namespace OrderAdmission

/-- What became of one task. -/
inductive Outcome (R : Type) where
  | pending
  | success (value : R)
  | failure (reason : String)
  deriving DecidableEq, Repr, Inhabited

namespace Outcome

variable {R : Type}

def isSuccess : Outcome R → Bool
  | success _ => true
  | _ => false

def isFailure : Outcome R → Bool
  | failure _ => true
  | _ => false

def value? : Outcome R → Option R
  | success v => some v
  | _ => none

end Outcome

/-- One unit of work; the index says where its outcome goes. -/
structure BatchTask (P : Type) where
  index : Nat
  payload : P
  deriving DecidableEq, Repr

/-- Tasks for payloads, each with its position as index. -/
def BatchTask.ofPayloads {P : Type} (payloads : List P) : List (BatchTask P) :=
  payloads.zipIdx.map fun (payload, index) => { index, payload }

structure BatchResult (R : Type) where
  outcomes : List (Outcome R)
  deriving DecidableEq, Repr, Inhabited

namespace BatchResult

variable {R : Type}

def empty : BatchResult R := { outcomes := [] }

def size (r : BatchResult R) : Nat := r.outcomes.length

def successCount (r : BatchResult R) : Nat := r.outcomes.countP (·.isSuccess)

def failureCount (r : BatchResult R) : Nat := r.outcomes.countP (·.isFailure)

def allSucceeded (r : BatchResult R) : Bool :=
  r.failureCount == 0 && r.successCount == r.size

def successes (r : BatchResult R) : List (Nat × R) :=
  r.outcomes.zipIdx.filterMap fun (o, i) => o.value?.map fun v => (i, v)

end BatchResult

/-- Task indices are accepted when they are in range and none repeats. The first task that breaks
this is named. -/
def checkIndices (size : Nat) : List Nat → List Nat → Except Invalid Unit
  | [], _ => .ok ()
  | i :: rest, seen =>
    if size ≤ i then .error (.taskOutOfRange i size)
    else if i ∈ seen then .error (.repeatedTask i)
    else checkIndices size rest (i :: seen)

/-- Checks that the indices of a batch number its tasks. -/
def checkTasks {P : Type} (tasks : List (BatchTask P)) : Except GateError Unit :=
  match checkIndices tasks.length (tasks.map (·.index)) [] with
  | .ok () => .ok ()
  | .error e => .error (.invalid e)

namespace Order

/-- The form that an order must have; whether it makes business sense is for the caller to say. -/
def check (o : Order) : Except Invalid Unit :=
  if Text.allBlank o.clientId then .error (.emptyClientId o.id)
  else if Text.allBlank o.symbol then .error (.emptySymbol o.id)
  else if !o.quantity.isPositive then .error (.quantityNotPositive o.id o.quantity)
  else if o.kind = .limit ∧ o.price = none then .error (.missingPrice o.id)
  else .ok ()

/-- Checks orders one after another, and that no id repeats. -/
def checkFrom : List Order → List Int → Except Invalid Unit
  | [], _ => .ok ()
  | o :: rest, seen =>
    match o.check with
    | .error e => .error e
    | .ok () => if o.id ∈ seen then .error (.repeatedOrder o.id) else checkFrom rest (o.id :: seen)

def checkBatch (orders : List Order) : Except GateError Unit :=
  match checkFrom orders [] with
  | .ok () => .ok ()
  | .error e => .error (.invalid e)

end Order

/-- The first update of an order that an earlier update already names. -/
def StatusUpdate.firstRepeated : List StatusUpdate → List Int → Option Int
  | [], _ => none
  | u :: rest, seen =>
    if u.orderId ∈ seen then some u.orderId else firstRepeated rest (u.orderId :: seen)

end OrderAdmission
