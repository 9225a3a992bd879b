import OrderAdmission.Engine.Step

/-!
# The stages of a job

The turns of a job are written as one function for each stage. Here stand the equations by which
proofs open these functions, and what is known of a job from its stage alone.
-/
namespace OrderAdmission

variable {P R : Type}

def BatchRun.whole (tasks : List (BatchTask P)) : BatchRun P R :=
  { remaining := tasks, position := 0, outcomes := List.replicate tasks.length .pending
    chunk := [], deadline := 0 }

def Worker.outcome? (w : Worker P R) : Option (Outcome R) :=
  match w.phase with
  | .ended outcome => outcome
  | _ => none

namespace Engine

/-! ### Engines with one part exchanged -/

def setCache (e : Engine P R) (cache : StatusCache) : Engine P R := { e with cache }

def setDetector (e : Engine P R) (detector : Detector) : Engine P R := { e with detector }

def enterRequest (e : Engine P R) : Engine P R := { e with requests := e.requests.enter }

def setLimiter (e : Engine P R) (limiter : Limiter) : Engine P R := { e with limiter }

def setLedger (e : Engine P R) (ledger : Ledger) : Engine P R := { e with ledger }

/-- What the wall clock shows at this instant after so many more readings. -/
def wallAfter (e : Engine P R) (n : Nat) : Int := e.epoch + e.now + e.desk.drift (e.readings + n)

theorem wallAfter_report (e : Engine P R) (job : Nat) (r : Report) (n : Nat) :
    (e.report job r).wallAfter n = e.wallAfter (n + 1) := by
  simp only [wallAfter, report, note, setBreaker, Nat.add_assoc, Nat.add_comm 1 n]

def collect (e : Engine P R) (w : Worker P R) : Engine P R :=
  { e with workers := e.workers.filter fun v => v.number != w.number }

/-- Why the tasks of a chunk that ends now have no outcome: they broke off if none is at work any
more, and else they are cut off. -/
def closingReason (e : Engine P R) (job : Nat) : String :=
  if (e.workersOf job).isEmpty then interruptedReason else chunkTimeoutReason

/-- The end of a chunk: its workers are taken off, and every task without an outcome gets one. -/
def settled (e : Engine P R) (job : Nat) (run : BatchRun P R) : Engine P R × List (Outcome R) :=
  (e.dismissAll job).settleChunk job (e.closingReason job) run.chunk run.outcomes

/-- The table of the engine takes the staged rows over, and the commit is noted. -/
def commitStaged (e : Engine P R) (job : Nat) (staged : Table) : Engine P R :=
  { e.note (.stored job .commit) with
    ledger := { e.ledger with table := e.ledger.table.commit staged } }

/-! ### Equations -/

theorem conclude_eq (e : Engine P R) (a : Assignment P) (ending : Ending R) :
    e.conclude a ending =
      ({ e with requests := if a.isAdmission then e.requests.leave else e.requests },
        .finished e.now ending) := by
  simp only [conclude, finish]
  split <;> rfl

/-- After its last statement on the table, a transaction commits and ends. -/
theorem nextStatement_commit (e : Engine P R) (job : Nat) (w : WriteRun) (latency : Nat)
    (hremaining : w.remaining = []) (hstore : e.desk.store = .table latency) :
    e.nextStatement job w =
      (e.commitStaged job w.staged).endWrite job (.ok (.ok w.total)) := by
  unfold nextStatement
  rw [hremaining, hstore]
  rfl

theorem placeOrders_eq (e : Engine P R) (job : Nat) (a : Assignment P) (result : BatchResult R) :
    e.placeOrders job a result =
      match e.updatesFor a.orders result.successes with
      | .error crash => e.conclude a (.error crash)
      | .ok (updates, cache) =>
        followWrite a (some result) ((e.setCache cache).openWrite job updates) := rfl

theorem startBatch_eq (e : Engine P R) (job attempts : Nat) (tasks : List (BatchTask P)) :
    e.startBatch job attempts tasks =
      if tasks.isEmpty then (e, .ends .empty)
      else
        match checkTasks tasks with
        | .error error => (e, .refused error)
        | .ok () =>
          match e.breaker.admitBulk e.wall with
          | .error crash => (e, .crashes crash)
          | .ok (.error error, breaker) => (e.setBreaker breaker, .refused error)
          | .ok (.ok (), breaker) =>
            let opened := (e.setBreaker breaker).openChunk job attempts (.whole tasks)
            (opened.1, .goesOn opened.2) := rfl

theorem bulkFailed_eq (e : Engine P R) (job : Nat) (a : Assignment P) (run : BulkRun R)
    (failure : DownstreamFailure) :
    e.bulkFailed job a run failure =
      let policy := e.desk.fallback.retry
      if !policy.triggers failure then e.conclude a (.ok (.error (.downstream failure false)))
      else
        let told := e.report job .failure
        if policy.maxRetries ≤ run.attempt - 1 then told.fallBack job a run.attempt failure
        else
          match told.breaker.allow told.wall with
          | .error crash => told.conclude a (.error crash)
          | .ok (false, breaker) => (told.setBreaker breaker).fallBack job a run.attempt failure
          | .ok (true, breaker) =>
            let due := e.now + policy.delay (run.attempt - 1)
            if run.deadline ≤ due then (told.setBreaker breaker).fallBack job a run.attempt failure
            else (told.setBreaker breaker, .backingOff run.attempt run.deadline due) := rfl

theorem dismissAll_of_isEmpty (e : Engine P R) (job : Nat) (h : (e.workersOf job).isEmpty) :
    e.dismissAll job = e := by
  have hnone : e.workersOf job = [] := List.isEmpty_iff.mp h
  have hworkers : (e.workers.filter fun w => w.job != job) = e.workers := by
    rw [List.filter_eq_self]
    intro w hw
    have hne := (List.filter_eq_nil_iff.mp hnone) w hw
    simpa using hne
  unfold dismissAll
  rw [hnone, hworkers]
  rfl

/-- A job that waits for its tasks notes an outcome as long as there is one, and else closes the
chunk. -/
theorem joinTurn_eq (e : Engine P R) (job attempts : Nat) (run : BatchRun P R) :
    e.joinTurn job attempts run =
      match (e.workersOf job).find? (·.hasEnded) with
      | some w =>
        (e.collect w, .goesOn (.joining attempts (run.noteOutcome w.index w.outcome?)))
      | none => (e.dismissAll job).endChunk job attempts run (e.closingReason job) := by
  unfold joinTurn closingReason
  cases (e.workersOf job).find? (·.hasEnded) with
  | some w => rfl
  | none =>
    by_cases hempty : (e.workersOf job).isEmpty
    · simp only [hempty, ↓reduceIte, dismissAll_of_isEmpty e job hempty]
    · simp only [hempty, Bool.false_eq_true, ↓reduceIte]

theorem endChunk_eq (e : Engine P R) (job attempts : Nat) (run : BatchRun P R) (reason : String) :
    e.endChunk job attempts run reason =
      let settled := e.settleChunk job reason run.chunk run.outcomes
      let run' := { run with outcomes := settled.2 }
      if run.remaining.isEmpty then (settled.1, .ends { outcomes := settled.2 })
      else if 0 < settled.1.desk.executor.chunkPause then
        (settled.1,
          .goesOn (.pausing attempts run' (settled.1.now + settled.1.desk.executor.chunkPause)))
      else
        let opened := settled.1.openChunk job attempts run'
        (opened.1, .goesOn opened.2) := rfl

/-- The last part of an admission: the breaker has been asked, and the detector is. -/
def checkOverload (e : Engine P R) (job : Nat) (a : Assignment P) : Engine P R × Stage P R :=
  let checked := e.detector.check e.probes.snapshot
  if checked.1.overloaded then
    (e.setDetector checked.2).conclude a (.ok (.error (.overloaded checked.1.retryAfter)))
  else (e.setDetector checked.2).startSubmission job a

/-- An admission asks one after another: the review, the breaker, the detector. -/
theorem startAdmission_eq (e : Engine P R) (job : Nat) (a : Assignment P) :
    e.startAdmission job a =
      if a.orders.isEmpty then e.finish (.ok (.ok (.batch .empty)))
      else
        match e.desk.review a.orders with
        | .error error => e.finish (.ok (.error error))
        | .ok () =>
          match e.breaker.admitBulk e.wall with
          | .error crash => e.enterRequest.conclude a (.error crash)
          | .ok (.error error, breaker) =>
            (e.enterRequest.setBreaker breaker).conclude a (.ok (.error error))
          | .ok (.ok (), breaker) => (e.enterRequest.setBreaker breaker).checkOverload job a := rfl

end Engine

/-! ### Stages -/

/-- The tasks that an assignment sends one by one. -/
def Assignment.tasks : Assignment P → List (BatchTask P)
  | .execute tasks => tasks
  | .submit orders => BatchTask.ofPayloads orders
  | .process orders => BatchTask.ofPayloads orders
  | _ => []

def Assignment.isOccupation : Assignment P → Bool
  | .occupy _ => true
  | _ => false

namespace Stage

/-- Whether a job at this stage has neither to do with permits nor with a batch at work. -/
def isAway : Stage P R → Bool
  | .queued _ | .holding _ _ | .joining _ _ | .pausing _ _ _ => false
  | .finished _ (.ok (.ok (.permit _))) => false
  | _ => true

def isJoining : Stage P R → Bool
  | .joining _ _ => true
  | _ => false

/-- What is known of a job from its stage: its attempts are counted from one and within the retries,
a batch has a place for the outcome of each task, permits of their own have only those who are to
hold one, and only who is to keep the table waits for it without a limit. -/
def Sound (maxRetries : Nat) (a : Assignment P) : Stage P R → Prop
  | .queued _ => ∃ stay, a = .hold stay
  | .holding _ _ => ∃ stay, a = .hold (some stay)
  | .calling run => 1 ≤ run.attempt
  | .backingOff attempt _ _ => 1 ≤ attempt ∧ attempt ≤ maxRetries
  | .joining _ run => run.outcomes.length = a.tasks.length
  | .pausing _ run _ => run.outcomes.length = a.tasks.length ∧ run.remaining ≠ []
  | .approaching => a.isOccupation = true
  | .occupying _ => a.isOccupation = true
  | _ => True

/-- A bound for the turns that a job with this assignment takes from this stage on. -/
def work (maxRetries : Nat) (a : Assignment P) (stage : Stage P R) : Nat :=
  Job.work { number := 0, assignment := a, stage, turn := none } maxRetries

end Stage

def Assignment.load (a : Assignment P) : Nat :=
  Job.load (R := Unit) { number := 0, assignment := a, stage := .approaching, turn := none }

namespace Stage

variable (maxRetries : Nat) (a : Assignment P)

theorem work_arriving (due : Nat) : (arriving due : Stage P R).work maxRetries a =
    submissionWork (maxRetries + 2) a.load + 4 := rfl

theorem work_backingOff (attempt deadline due : Nat) :
    (backingOff attempt deadline due : Stage P R).work maxRetries a =
      submissionWork (maxRetries + 1 - attempt) a.load := rfl

theorem work_joining (attempts : Nat) (run : BatchRun P R) :
    (joining attempts run).work maxRetries a = batchWork run.remaining.length a.load + 1 := rfl

theorem work_pausing (attempts due : Nat) (run : BatchRun P R) :
    (pausing attempts run due).work maxRetries a = batchWork run.remaining.length a.load := rfl

end Stage

theorem Job.work_eq (j : Job P R) (maxRetries : Nat) :
    j.work maxRetries = j.stage.work maxRetries j.assignment := rfl

@[simp] theorem BatchTask.length_ofPayloads (payloads : List P) :
    (BatchTask.ofPayloads payloads).length = payloads.length := by
  simp [BatchTask.ofPayloads]

theorem BatchTask.ofPayloads_ne_nil {payloads : List P} (hsome : payloads ≠ []) :
    BatchTask.ofPayloads payloads ≠ [] := by
  rw [← List.length_pos_iff, BatchTask.length_ofPayloads]
  exact List.length_pos_iff.mpr hsome

theorem Assignment.length_tasks_le (a : Assignment P) : a.tasks.length ≤ a.load := by
  cases a <;> simp [tasks, load, Job.load]

theorem Assignment.length_orders_le (a : Assignment P) : a.orders.length ≤ a.load := by
  cases a <;> simp [orders, load, Job.load]

end OrderAdmission
