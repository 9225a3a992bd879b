import OrderAdmission.Engine.Submission

/-!
# Turns on one clock

`Engine.step` serves whoever has the lowest turn number, and moves the clock when nobody has one.
After every step those who have become able to go on get their turn numbers: after somebody's
turn workers come before jobs, and after the clock has moved jobs come before workers, each in the
order of their numbers. Whoever is still able to go on keeps its turn.

A step uses work up: `Engine.work` measures what is left, and bounds the number of steps that
`Engine.run` takes.
-/
namespace OrderAdmission

variable {P R : Type}

namespace Job

def isReady (j : Job P R) (e : Engine P R) : Bool :=
  match j.stage with
  | .arriving due => decide (due ≤ e.now)
  | .queued limit => e.limiter.hasGrant j.number || decide (limit ≤ e.now)
  | .holding _ due => decide (due ≤ e.now)
  | .approaching => e.ledger.holder == some j.number
  | .occupying due => match due with
    | some t => decide (t ≤ e.now)
    | none => false
  | .calling run => run.call.arrived e.now || decide (run.cutoff ≤ e.now)
  | .backingOff _ _ due => decide (due ≤ e.now)
  | .joining _ run => e.joinIsReady j.number run.deadline
  | .pausing _ _ due => decide (due ≤ e.now)
  | .writing _ run => run.isReady j.number e.ledger e.now
  | .finished _ _ => false

/-- When the job will be able to go on by the clock alone. -/
def due? (j : Job P R) : Option Nat :=
  match j.stage with
  | .arriving due => some due
  | .queued limit => some limit
  | .holding _ due => some due
  | .approaching => none
  | .occupying due => due
  | .calling run => some (earlier run.call.due? run.cutoff)
  | .backingOff _ _ due => some due
  | .joining _ run => some run.deadline
  | .pausing _ _ due => some due
  | .writing _ run => some run.due
  | .finished _ _ => none

/-- How the job ended, if it has, and when. -/
def ending? (j : Job P R) : Option (Nat × Ending R) :=
  match j.stage with
  | .finished time ending => some (time, ending)
  | _ => none

end Job

namespace Engine

/-- With its permit, a holder keeps it for a while or for good. -/
def keepPermit (e : Engine P R) : Option Nat → Engine P R × Stage P R
  | some stay => (e, .holding e.now (e.now + stay))
  | none => e.finish (.ok (.ok (.permit e.now)))

def stayOf : Assignment P → Option Nat
  | .hold stay => stay
  | .occupy stay => stay
  | _ => none

def startJob (e : Engine P R) (job : Nat) (a : Assignment P) : Engine P R × Stage P R :=
  match a with
  | .hold stay =>
    match e.limiter.take? with
    | some limiter => { e with limiter }.keepPermit stay
    | none => ({ e with limiter := e.limiter.join job }, .queued (e.now + e.limiter.patience))
  | .execute tasks => followStart job a 0 (e.startBatch job 0 tasks)
  | .submit orders =>
    if orders.isEmpty then
      e.finish (.ok (.ok (.submission { phase := .success, result := .empty, bulkAttempts := 0 })))
    else e.startSubmission job a
  | .process _ => e.startAdmission job a
  | .write updates => followWrite a none (e.openWrite job updates)
  | .occupy _ => ({ e with ledger := e.ledger.request job }, .approaching)

def jobTurn (e : Engine P R) (j : Job P R) : Engine P R × Stage P R :=
  let a := j.assignment
  match j.stage with
  | .arriving _ => e.startJob j.number a
  | .queued _ =>
    if e.limiter.hasGrant j.number then
      { e with limiter := e.limiter.claim j.number }.keepPermit (stayOf a)
    else
      { e with limiter := e.limiter.withdraw j.number }.finish
        (.ok (.error (.permitTimeout e.limiter.patience)))
  | .holding since _ =>
    { e with limiter := e.limiter.release }.finish (.ok (.ok (.permit since)))
  | .approaching => (e, .occupying ((stayOf a).map (e.now + ·)))
  | .occupying _ => { e with ledger := e.ledger.leave j.number }.finish (.ok (.ok .vacated))
  | .calling run => e.bulkTurn j.number a run
  | .backingOff attempt deadline _ => e.callBulk j.number a (attempt + 1) deadline
  | .joining attempts run => followBatch j.number a attempts (e.joinTurn j.number attempts run)
  | .pausing attempts run _ => e.openChunk j.number attempts run
  | .writing result run => followWrite a result (e.writeTurn j.number run)
  | .finished time ending => (e, .finished time ending)

/-- Gives turn numbers to the workers that are able to go on and have none. -/
def callWorkers (e : Engine P R) : List (Worker P R) → Nat → List (Worker P R) × Nat
  | [], next => ([], next)
  | w :: rest, next =>
    if w.isReady e.limiter e.now then
      match w.turn with
      | some _ =>
        let (rest, next) := e.callWorkers rest next
        (w :: rest, next)
      | none =>
        let (rest, after) := e.callWorkers rest (next + 1)
        ({ w with turn := some next } :: rest, after)
    else
      let (rest, next) := e.callWorkers rest next
      ({ w with turn := none } :: rest, next)

/-- Gives turn numbers to the jobs that are able to go on and have none. -/
def callJobs (e : Engine P R) : List (Job P R) → Nat → List (Job P R) × Nat
  | [], next => ([], next)
  | j :: rest, next =>
    if j.isReady e then
      match j.turn with
      | some _ =>
        let (rest, next) := e.callJobs rest next
        (j :: rest, next)
      | none =>
        let (rest, after) := e.callJobs rest (next + 1)
        ({ j with turn := some next } :: rest, after)
    else
      let (rest, next) := e.callJobs rest next
      ({ j with turn := none } :: rest, next)

/-- Calls up whoever has become able to go on, after somebody's turn. -/
def callAfterTurn (e : Engine P R) : Engine P R :=
  let (workers, next) := e.callWorkers e.workers e.nextTurn
  let (jobs, next) := e.callJobs e.jobs next
  { e with workers, jobs, nextTurn := next }

/-- Calls up whoever has become able to go on, after the clock has moved. -/
def callAfterTick (e : Engine P R) : Engine P R :=
  let (jobs, next) := e.callJobs e.jobs e.nextTurn
  let (workers, next) := e.callWorkers e.workers next
  { e with workers, jobs, nextTurn := next }

/-- The lower of two turn numbers, where there may be none. -/
def firstTurn : Option Nat → Option Nat → Option Nat
  | none, t => t
  | t, none => t
  | some a, some b => some (min a b)

/-- The turn number that is served next. -/
def turn? (e : Engine P R) : Option Nat :=
  firstTurn ((e.workers.map (·.turn)).foldl firstTurn none)
    ((e.jobs.map (·.turn)).foldl firstTurn none)

/-- The next time at which somebody is able to go on by the clock alone. -/
def due? (e : Engine P R) : Option Nat :=
  firstTurn ((e.workers.map (·.due?)).foldl firstTurn none)
    ((e.jobs.map (·.due?)).foldl firstTurn none)

def serveWorker (e : Engine P R) (w : Worker P R) : Engine P R :=
  let (e, phase) := e.workerTurn w
  { e with workers := e.workers.map fun v => if v.number = w.number then { v with phase } else v }

def serveJob (e : Engine P R) (j : Job P R) : Engine P R :=
  let (e, stage) := e.jobTurn j
  { e with jobs := e.jobs.map fun k => if k.number = j.number then { k with stage } else k }

/-- Serves whoever has this turn number. -/
def serve (e : Engine P R) (turn : Nat) : Engine P R :=
  match e.workers.find? fun w => w.turn == some turn with
  | some w => e.serveWorker w
  | none =>
    match e.jobs.find? fun j => j.turn == some turn with
    | some j => e.serveJob j
    | none => e

/-- One step, unless nobody will ever be able to go on. -/
def step (e : Engine P R) : Option (Engine P R) :=
  match e.turn? with
  | some turn => some (e.serve turn).callAfterTurn
  | none =>
    match e.due? with
    | some time => some { e with now := time }.callAfterTick
    | none => none

def runFor : Nat → Engine P R → Engine P R
  | 0, e => e
  | steps + 1, e =>
    match e.step with
    | some e => runFor steps e
    | none => e

end Engine

/-! ### How much work is left -/

/-- The turns that a worker still takes, and one in which its end is noted. -/
def Worker.work (w : Worker P R) : Nat :=
  match w.phase with
  | .fresh => 5
  | .queued _ => 4
  | .working _ _ => 3
  | .reported _ _ => 2
  | .ended _ => 1

/-- A bound for the turns of a status write with `n` statements left. -/
def writeWork (n : Nat) : Nat := 2 * n + 4

/-- A bound for the turns of a batch with `n` tasks left, and of the write that may follow it. -/
def batchWork (n total : Nat) : Nat := 7 * n + writeWork total + 2

/-- A bound for the turns of a submission with `retries` bulk calls left. -/
def submissionWork (retries orders : Nat) : Nat := 2 * retries + batchWork orders orders + 2

namespace Job

/-- The number of tasks, orders or updates of an assignment. -/
def load (j : Job P R) : Nat :=
  match j.assignment with
  | .execute tasks => tasks.length
  | .submit orders => orders.length
  | .process orders => orders.length
  | .write updates => updates.length
  | _ => 0

/-- A bound for the turns that a job still takes. -/
def work (j : Job P R) (maxRetries : Nat) : Nat :=
  match j.stage with
  | .arriving _ => submissionWork (maxRetries + 2) j.load + 4
  | .queued _ => 2
  | .holding _ _ => 1
  | .approaching => 2
  | .occupying _ => 1
  | .calling run => submissionWork (maxRetries + 1 - run.attempt) j.load + 1
  | .backingOff attempt _ _ => submissionWork (maxRetries + 1 - attempt) j.load
  | .joining _ run => batchWork run.remaining.length j.load + 1
  | .pausing _ run _ => batchWork run.remaining.length j.load
  | .writing _ run =>
    2 * run.remaining.length + match run.step with
      | .queued => 3
      | .opening _ => 3
      | .stating _ => 2
      | .asking _ => 2
      | .committing _ => 1
      | .rollingBack _ _ => 1
  | .finished _ _ => 0

end Job

namespace Engine

/-- A bound for the turns that everybody together still takes. -/
def work (e : Engine P R) : Nat :=
  e.workers.foldr (fun w rest => w.work + rest) 0 +
    e.jobs.foldr (fun j rest => j.work e.desk.fallback.retry.maxRetries + rest) 0

/-- Goes on until nobody is ever able to go on: each turn uses up work, and no two moves of the
clock follow each other. -/
def run (e : Engine P R) : Engine P R :=
  let e := e.callAfterTurn
  runFor (2 * e.work + 2) e

/-- Adds jobs, each with the time it waits before it begins. -/
def addJobs (e : Engine P R) : List (Nat × Assignment P) → Engine P R
  | [] => e
  | (after, assignment) :: rest =>
    let job : Job P R :=
      { number := e.nextNumber, assignment, stage := .arriving (e.now + after), turn := none }
    { e with jobs := e.jobs ++ [job], nextNumber := e.nextNumber + 1 }.addJobs rest

/-- Does several assignments at once, each after a wait: the engine afterwards, and when and how
each of them ended. An assignment that never ends has no ending. -/
def perform (e : Engine P R) (assignments : List (Nat × Assignment P)) :
    Engine P R × List (Option (Nat × Ending R)) :=
  let done := (e.addJobs assignments).run
  ({ done with jobs := [] }, done.jobs.map (·.ending?))

def performOne (e : Engine P R) (a : Assignment P) : Engine P R × Option (Ending R) :=
  let (e, endings) := e.perform [(0, a)]
  (e, (endings.head?.join).map (·.2))

def advance (e : Engine P R) (ms : Nat) : Engine P R := { e with now := e.now + ms }

def shiftWall (e : Engine P R) (ms : Int) : Engine P R := { e with epoch := e.epoch + ms }

end Engine

end OrderAdmission
