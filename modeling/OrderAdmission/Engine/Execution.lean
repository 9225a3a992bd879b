import OrderAdmission.Engine.Worker
import OrderAdmission.Engine.Write

/-!
# Execution of a batch

The tasks of a batch are cut into chunks, one chunk after another with a pause in between. The tasks
of a chunk all begin at once and compete for permits; the job notes their outcomes by index as they
end. A chunk ends when all its tasks have, or is cut off at its deadline. Whoever has no outcome by
then is a failure, which is reported to the breaker for it: a task that broke off was interrupted,
and a task that was cut off timed out with its chunk.
-/
namespace OrderAdmission

variable {P R : Type}

/-- The workers for the tasks of a chunk, numbered in order. -/
def spawnWorkers (job : Nat) : List (BatchTask P) → Nat → Nat → List (Worker P R)
  | [], _, _ => []
  | t :: rest, number, position =>
    { number, job, position, index := t.index, payload := t.payload, phase := .fresh,
      turn := none } :: spawnWorkers job rest (number + 1) (position + 1)

def isMissing (outcomes : List (Outcome R)) (index : Nat) : Bool :=
  match outcomes[index]? with
  | some .pending => true
  | _ => false

namespace BatchRun

/-- Notes the outcome of a task that has ended; without one, its place stays open. -/
def noteOutcome (run : BatchRun P R) (index : Nat) : Option (Outcome R) → BatchRun P R
  | some outcome => { run with outcomes := run.outcomes.set index outcome }
  | none => run

end BatchRun

namespace Engine

/-- The number of tasks of a chunk; a size of zero counts as one. -/
def chunkSize (e : Engine P R) : Nat := max 1 e.desk.executor.chunkSize

def openChunk (e : Engine P R) (job attempts : Nat) (run : BatchRun P R) :
    Engine P R × Stage P R :=
  let tasks := run.remaining.take e.chunkSize
  ({ e with
      workers := e.workers ++ spawnWorkers job tasks e.nextNumber run.position
      nextNumber := e.nextNumber + tasks.length },
    .joining attempts
      { remaining := run.remaining.drop e.chunkSize
        position := run.position + tasks.length
        outcomes := run.outcomes
        chunk := tasks.map (·.index)
        deadline := e.now + e.desk.executor.chunkTimeout })

/-- Gives every task of the chunk that has no outcome a failure with this reason, and reports it. -/
def settleChunk (e : Engine P R) (job : Nat) (reason : String) :
    List Nat → List (Outcome R) → Engine P R × List (Outcome R)
  | [], outcomes => (e, outcomes)
  | index :: rest, outcomes =>
    if isMissing outcomes index then
      (e.report job .failure).settleChunk job reason rest (outcomes.set index (.failure reason))
    else e.settleChunk job reason rest outcomes

inductive BatchTurn (P R : Type) where
  | goesOn (stage : Stage P R)
  | ends (result : BatchResult R)

/-- The end of a chunk: the next one begins, at once or after the pause, or the batch is done. -/
def endChunk (e : Engine P R) (job attempts : Nat) (run : BatchRun P R) (reason : String) :
    Engine P R × BatchTurn P R :=
  let (e, outcomes) := e.settleChunk job reason run.chunk run.outcomes
  let run := { run with outcomes }
  if run.remaining.isEmpty then (e, .ends { outcomes })
  else if 0 < e.desk.executor.chunkPause then
    (e, .goesOn (.pausing attempts run (e.now + e.desk.executor.chunkPause)))
  else
    let (e, stage) := e.openChunk job attempts run
    (e, .goesOn stage)

def workersOf (e : Engine P R) (job : Nat) : List (Worker P R) :=
  e.workers.filter fun w => w.job == job

/-- What is noted of workers that are cut off. -/
def cutOffs (e : Engine P R) (workers : List (Worker P R)) : List (Entry P R) :=
  (workers.map fun w => { time := e.now, event := .cutOff w.job w.position w.told? }).reverse

/-- Takes the workers of a job off before they have ended. -/
def dismissAll (e : Engine P R) (job : Nat) : Engine P R :=
  { e with
    limiter := (e.workersOf job).foldl dismiss e.limiter
    workers := e.workers.filter fun w => w.job != job
    journal := e.cutOffs (e.workersOf job) ++ e.journal }

/-- Whether a job that waits for its tasks is able to go on: one of them has ended, none is left,
or the time of the chunk is over. -/
def joinIsReady (e : Engine P R) (job deadline : Nat) : Bool :=
  (e.workersOf job).isEmpty || (e.workersOf job).any (·.hasEnded) || decide (deadline ≤ e.now)

def joinTurn (e : Engine P R) (job attempts : Nat) (run : BatchRun P R) :
    Engine P R × BatchTurn P R :=
  match (e.workersOf job).find? (·.hasEnded) with
  | some w =>
    let outcome := match w.phase with
      | .ended outcome => outcome
      | _ => none
    ({ e with workers := e.workers.filter fun v => v.number != w.number },
      .goesOn (.joining attempts (run.noteOutcome w.index outcome)))
  | none =>
    if (e.workersOf job).isEmpty then e.endChunk job attempts run interruptedReason
    else (e.dismissAll job).endChunk job attempts run chunkTimeoutReason

inductive BatchStart (P R : Type) where
  | goesOn (stage : Stage P R)
  | ends (result : BatchResult R)
  | refused (error : GateError)
  | crashes (crash : Crash)

/-- Begins a batch: its indices are checked, the breaker admits it, and the first chunk begins. -/
def startBatch (e : Engine P R) (job attempts : Nat) (tasks : List (BatchTask P)) :
    Engine P R × BatchStart P R :=
  if tasks.isEmpty then (e, .ends .empty)
  else
    match checkTasks tasks with
    | .error error => (e, .refused error)
    | .ok () =>
      match e.breaker.admitBulk e.wall with
      | .error crash => (e, .crashes crash)
      | .ok (.error error, breaker) => (e.setBreaker breaker, .refused error)
      | .ok (.ok (), breaker) =>
        let (e, stage) := (e.setBreaker breaker).openChunk job attempts
          { remaining := tasks, position := 0
            outcomes := List.replicate tasks.length .pending
            chunk := [], deadline := 0 }
        (e, .goesOn stage)

end Engine

end OrderAdmission
