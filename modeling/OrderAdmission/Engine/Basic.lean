import OrderAdmission.Breaker
import OrderAdmission.Conduct
import OrderAdmission.Limiter
import OrderAdmission.Order.Spelling
import OrderAdmission.Overload
import OrderAdmission.Retry
import OrderAdmission.Store.Table

/-!
# The engine of an admission gate

An engine is everything that work in progress shares, and the work itself.

Several pieces of work, *jobs*, are in progress at a time: batches, submissions, status writes,
holders of a permit. The tasks of a batch are *workers* of their own. Jobs and workers go forward
in turns on one clock: whoever is able to go on gets a turn number and is served in that order,
and when nobody is able to go on the clock moves to the next time at which somebody is. All that
happens in one turn happens at one instant of this clock. The wall clock is another one: the breaker
reads it anew each time, and between two readings it may go on or be set.

Payloads `P` and results `R` are arbitrary. What the outside world does with them is part of the
`Desk`, as functions to a `Conduct`.
-/
namespace OrderAdmission

/-- What is written about a placed order: its row, the status as reported, and what is stored
beside the status. -/
structure Placement where
  orderId : Int
  version : Int
  status : String
  extra : Json

/-- A store that answers each transaction in a way of its own. Statements are numbered from
zero. -/
structure StoreScript where
  opening : Conduct (Except GateError Unit)
  statement : Nat → List StatusUpdate → Conduct (Except GateError (List Nat))
  commit : Conduct (Except GateError Unit)
  rollback : Conduct (Except GateError Unit)

/-- Where statuses are written. -/
inductive StatusStore where
  /-- The table of the engine, where one statement takes this long. -/
  | table (latency : Nat)
  /-- A store outside. -/
  | outside (script : StoreScript)

/-- The answer of the service to a bulk call: one item for each order, in their order. -/
abbrev BulkAnswer (R : Type) := Except DownstreamFailure (List (Except DownstreamFailure R))

/-- The settings and the collaborators of an engine; they never change. Calls of each kind are
numbered from zero, and a collaborator may answer each of them differently. -/
structure Desk (P R : Type) where
  executor : ExecutorConfig
  fallback : FallbackConfig
  persistence : PersistenceConfig
  store : StatusStore
  bulk : Nat → List P → Conduct (BulkAnswer R)
  single : Nat → P → Conduct (Except DownstreamFailure R)
  /-- The check of a batch before it is admitted. -/
  review : List P → Except GateError Unit
  place : P → R → Placement
  /-- How far the wall clock is off when the breaker reads it for the n-th time. -/
  drift : Nat → Int := fun _ => 0

/-- The table of stored orders and who holds it. -/
structure Ledger where
  table : Table
  /-- The job whose transaction is open. -/
  holder : Option Nat
  /-- The jobs that wait for the table, in order of arrival. -/
  queue : List Nat

namespace Ledger

/-- Takes the table or joins the queue for it. -/
def request (l : Ledger) (job : Nat) : Ledger :=
  if l.holder = none then { l with holder := some job } else { l with queue := l.queue ++ [job] }

def pass (l : Ledger) : Ledger :=
  match l.queue with
  | [] => { l with holder := none }
  | job :: rest => { l with holder := some job, queue := rest }

/-- Gives the table back, or the place in the queue for it. -/
def leave (l : Ledger) (job : Nat) : Ledger :=
  if l.holder = some job then l.pass else { l with queue := l.queue.erase job }

end Ledger

inductive WorkerPhase (R : Type) where
  | fresh
  /-- It waits for a permit until the limit. -/
  | queued (limit : Nat)
  /-- It holds a permit and waits for the answer to its call, until the cutoff. -/
  | working (call : Conduct (Except DownstreamFailure R)) (cutoff : Nat)
  /-- It has told the breaker of its outcome and has yet to end; it may still hold its permit. -/
  | reported (permit : Bool) (outcome : Outcome R)
  /-- It has ended, without an outcome if it broke off. -/
  | ended (outcome : Option (Outcome R))

/-- The task of a batch from its start until its batch has noted its outcome. -/
structure Worker (P R : Type) where
  number : Nat
  job : Nat
  position : Nat
  /-- Where its outcome goes. -/
  index : Nat
  payload : P
  phase : WorkerPhase R
  /-- The turn number, once it is able to go on. -/
  turn : Option Nat

/-- A batch that is executed chunk by chunk. -/
structure BatchRun (P R : Type) where
  /-- The tasks of later chunks. -/
  remaining : List (BatchTask P)
  /-- The position of the first of them. -/
  position : Nat
  /-- The outcomes noted so far, by index. -/
  outcomes : List (Outcome R)
  /-- The indices of the tasks of the chunk at work. -/
  chunk : List Nat
  /-- When the chunk is cut off. -/
  deadline : Nat

structure BulkRun (R : Type) where
  /-- The number of this call, counted from one. -/
  attempt : Nat
  /-- When the time budget of all calls ends. -/
  deadline : Nat
  call : Conduct (BulkAnswer R)
  /-- When this call is cut off. -/
  cutoff : Nat

/-- What the transaction of a status write waits for. -/
inductive WriteStep where
  | queued
  /-- The answer of an outside store to the beginning of the transaction. -/
  | opening (call : Conduct (Except GateError Unit))
  | stating (due : Nat)
  /-- The answer of an outside store to a statement. -/
  | asking (call : Conduct (Except GateError (List Nat)))
  /-- The answer of an outside store to the end of the transaction. -/
  | committing (call : Conduct (Except GateError Unit))
  /-- The answer of an outside store to taking the transaction back after an error. -/
  | rollingBack (error : GateError) (call : Conduct (Except GateError Unit))

structure WriteRun where
  total : Nat
  /-- When the transaction is cut off. -/
  limit : Nat
  /-- The statements that are not yet made; the first may be under way. -/
  remaining : List (List StatusUpdate)
  made : Nat
  staged : Table
  step : WriteStep

/-- How a submission ended or where it stands. -/
inductive SubmissionPhase where
  | new
  | bulkAttempt
  | bulkFailed
  | individualFallback
  | success
  | partialSuccess
  | failure
  deriving DecidableEq, Repr

def SubmissionPhase.name : SubmissionPhase → String
  | new => "new"
  | bulkAttempt => "bulk_attempt"
  | bulkFailed => "bulk_failed"
  | individualFallback => "individual_fallback"
  | success => "success"
  | partialSuccess => "partial_success"
  | failure => "failure"

def SubmissionPhase.all : List SubmissionPhase :=
  [new, bulkAttempt, bulkFailed, individualFallback, success, partialSuccess, failure]

structure SubmissionOutcome (R : Type) where
  phase : SubmissionPhase
  result : BatchResult R
  bulkAttempts : Nat

inductive Assignment (P : Type) where
  /-- Get a permit, and give it back after a while if one is given. -/
  | hold (stay : Option Nat)
  | execute (tasks : List (BatchTask P))
  | submit (orders : List P)
  /-- Admit orders, send them downstream and write their statuses. -/
  | process (orders : List P)
  | write (updates : List StatusUpdate)
  /-- Keep the table to itself, and give it back after a while if one is given. -/
  | occupy (stay : Option Nat)

inductive Receipt (R : Type) where
  | permit (since : Nat)
  | batch (result : BatchResult R)
  | submission (outcome : SubmissionOutcome R)
  | written (rows : Nat)
  | vacated

/-- How a job ended: it crashed, or it returned an error or a receipt. -/
abbrev Ending (R : Type) := Except Crash (Except GateError (Receipt R))

inductive Stage (P R : Type) where
  | arriving (due : Nat)
  /-- It waits for a permit of its own until the limit. -/
  | queued (limit : Nat)
  | holding (since due : Nat)
  | approaching
  | occupying (due : Option Nat)
  | calling (run : BulkRun R)
  /-- It waits before the next bulk call. -/
  | backingOff (attempt deadline due : Nat)
  /-- It waits for the tasks of a chunk; the number is that of its bulk calls. -/
  | joining (attempts : Nat) (run : BatchRun P R)
  /-- It waits before the next chunk. -/
  | pausing (attempts : Nat) (run : BatchRun P R) (due : Nat)
  /-- It writes statuses, after a batch if there was one. -/
  | writing (result : Option (BatchResult R)) (run : WriteRun)
  | finished (time : Nat) (ending : Ending R)

structure Job (P R : Type) where
  number : Nat
  assignment : Assignment P
  stage : Stage P R
  turn : Option Nat

inductive StoreCall where
  | begin
  | apply (orders : List Int)
  | commit
  | rollback
  deriving DecidableEq, Repr

inductive Event (P R : Type) where
  | bulkCalled (job : Nat) (orders : List P)
  /-- A bulk call came back, or was cut off. -/
  | bulkEnded (job : Nat) (answer : Option (BulkAnswer R))
  /-- A call for one order began; the number of permits in use is with it. -/
  | singleCalled (job position : Nat) (payload : P) (inFlight : Nat)
  | singleEnded (job position : Nat) (answer : Option (Except DownstreamFailure R))
  /-- The breaker was told, at this reading of the wall clock. -/
  | reported (job : Nat) (report : Report) (wall : Int)
  /-- The task of a batch was cut off with its chunk; it may have told the breaker before. -/
  | cutOff (job position : Nat) (told : Option Report)
  | stored (job : Nat) (call : StoreCall)

/-- An event and when it happened. -/
structure Entry (P R : Type) where
  time : Nat
  event : Event P R

/-- The state of a gate with everything that is in progress. -/
structure Engine (P R : Type) where
  desk : Desk P R
  /-- The time, in milliseconds since the beginning. -/
  now : Nat
  /-- What the wall clock showed at the beginning, with everything it has been moved since. -/
  epoch : Int
  breaker : Breaker
  limiter : Limiter
  detector : Detector
  memory : Gauge
  requests : RequestTracker
  cache : StatusCache
  ledger : Ledger
  workers : List (Worker P R)
  jobs : List (Job P R)
  nextNumber : Nat
  nextTurn : Nat
  bulkCalls : Nat
  singleCalls : Nat
  /-- What has happened, the latest first. -/
  journal : List (Entry P R)
  /-- How often the breaker has read the wall clock. -/
  readings : Nat

namespace Engine

variable {P R : Type}

/-- What the wall clock shows when the breaker reads it next. -/
def wall (e : Engine P R) : Int := e.epoch + e.now + e.desk.drift e.readings

def note (e : Engine P R) (event : Event P R) : Engine P R :=
  { e with journal := { time := e.now, event } :: e.journal }

/-- The breaker has read the wall clock and is now this one. -/
def setBreaker (e : Engine P R) (breaker : Breaker) : Engine P R :=
  { e with breaker, readings := e.readings + 1 }

def report (e : Engine P R) (job : Nat) (r : Report) : Engine P R :=
  (e.setBreaker (e.breaker.record e.wall r)).note (.reported job r e.wall)

def probes (e : Engine P R) : Probes
  | .threadPool => some e.limiter.utilization
  | .dbPool => e.breaker.pool.map (·.utilization)
  | .memory => some e.memory.utilization
  | .requestRatio => some e.requests.utilization

end Engine

end OrderAdmission
