import OrderAdmission.Engine.Basic

/-!
# Turns of a worker

A worker is the task of a batch while it is in progress.

A worker first gets a permit, or gives up when it has waited long enough for one. With its permit
it makes its call and waits for the answer, no longer than a task may take. Then it reports to the
breaker, and in a turn of its own it gives its permit back and ends. Its batch learns of the outcome
only from the end. A call that breaks off ends the worker without an outcome and without a report;
its batch sees to both.
-/
namespace OrderAdmission

variable {P R : Type}

/-- The reasons for which tasks fail by themselves. -/
def permitTimeoutReason : String := "permit timeout"

def chunkTimeoutReason : String := "chunk timeout"

def interruptedReason : String := "task interrupted"

def taskTimeoutReason (limit : Nat) : String := s!"task timed out after {limit}ms"

/-- What a task with this outcome tells the breaker. -/
def Outcome.report? : Outcome R → Option Report
  | .pending => none
  | .success _ => some .success
  | .failure _ => some .failure

namespace Worker

def isReady (w : Worker P R) (l : Limiter) (now : Nat) : Bool :=
  match w.phase with
  | .fresh => true
  | .queued limit => l.hasGrant w.number || decide (limit ≤ now)
  | .working call cutoff => call.arrived now || decide (cutoff ≤ now)
  | .reported _ _ => true
  | .ended _ => false

def due? (w : Worker P R) : Option Nat :=
  match w.phase with
  | .queued limit => some limit
  | .working call cutoff => some (earlier call.due? cutoff)
  | _ => none

def hasEnded (w : Worker P R) : Bool :=
  match w.phase with
  | .ended _ => true
  | _ => false

/-- What a worker that has yet to end has told the breaker. -/
def told? (w : Worker P R) : Option Report :=
  match w.phase with
  | .reported _ outcome => outcome.report?
  | _ => none

end Worker

namespace Engine

/-- With its permit in use, a worker makes its call. -/
def startCall (e : Engine P R) (w : Worker P R) : Engine P R × WorkerPhase R :=
  let call := (e.desk.single e.singleCalls w.payload).since e.now
  ({ e with singleCalls := e.singleCalls + 1 }.note
      (.singleCalled w.job w.position w.payload e.limiter.inFlight),
    .working call (e.now + e.desk.executor.taskTimeout))

/-- The end of a call: the answer is noted, and the breaker is told. -/
def endCall (e : Engine P R) (w : Worker P R) (answer : Option (Except DownstreamFailure R))
    (outcome : Outcome R) (r : Report) : Engine P R × WorkerPhase R :=
  ((e.note (.singleEnded w.job w.position answer)).report w.job r, .reported true outcome)

def workerTurn (e : Engine P R) (w : Worker P R) : Engine P R × WorkerPhase R :=
  match w.phase with
  | .fresh =>
    match e.limiter.take? with
    | some limiter => { e with limiter }.startCall w
    | none =>
      ({ e with limiter := e.limiter.join w.number }, .queued (e.now + e.limiter.patience))
  | .queued _ =>
    if e.limiter.hasGrant w.number then
      { e with limiter := e.limiter.claim w.number }.startCall w
    else
      ({ e with limiter := e.limiter.withdraw w.number }.report w.job .failure,
        .reported false (.failure permitTimeoutReason))
  | .working call _ =>
    match call.reply? e.now with
    | some (some (.ok value)) => e.endCall w (some (.ok value)) (.success value) .success
    | some (some (.error f)) => e.endCall w (some (.error f)) (.failure f.text) .failure
    | some none => ({ e with limiter := e.limiter.release }, .ended none)
    | none =>
      e.endCall w none (.failure (taskTimeoutReason e.desk.executor.taskTimeout)) .failure
  | .reported permit outcome =>
    ({ e with limiter := if permit then e.limiter.release else e.limiter },
      .ended (some outcome))
  | .ended outcome => (e, .ended outcome)

/-- Takes a worker off before it has ended: its permit, or its place in the queue, goes back. -/
def dismiss (l : Limiter) (w : Worker P R) : Limiter :=
  match w.phase with
  | .fresh => l
  | .queued _ => l.withdraw w.number
  | .working _ _ => l.release
  | .reported permit _ => if permit then l.release else l
  | .ended _ => l

end Engine

end OrderAdmission
