import OrderAdmission.Proofs.Stages

/-!
# Turn numbers are only an order of service

A turn number says who is served next and nothing else. `Engine.unturned` forgets all turn numbers
of an engine, and this module proves that **serving somebody commutes with forgetting them**: what a
turn does to an engine, and what stage or phase it leads to, never depends on the numbers.

Statements about a run can therefore be made about engines without turn numbers, where anybody who
is able to go on may be served next.
-/
namespace OrderAdmission

variable {P R : Type}

def Worker.unturned (w : Worker P R) : Worker P R := { w with turn := none }

def Job.unturned (j : Job P R) : Job P R := { j with turn := none }

namespace Engine

def unturned (e : Engine P R) : Engine P R :=
  { e with workers := e.workers.map (·.unturned), jobs := e.jobs.map (·.unturned), nextTurn := 0 }

/-- A result of a turn whose engine has forgotten its turn numbers. -/
def Unturned {α : Type} (result : Engine P R × α) : Engine P R × α :=
  (result.1.unturned, result.2)

@[simp] theorem Unturned_mk {α : Type} (e : Engine P R) (a : α) :
    Unturned (e, a) = (e.unturned, a) := rfl

@[simp] theorem unturned_unturned (e : Engine P R) : e.unturned.unturned = e.unturned := by
  simp [unturned, Worker.unturned, Job.unturned, Function.comp_def]

theorem unturned_report (e : Engine P R) (job : Nat) (r : Report) :
    e.unturned.report job r = (e.report job r).unturned := rfl

/-! ### Turns of a worker -/

theorem unturned_workerTurn (e : Engine P R) (w : Worker P R) :
    e.unturned.workerTurn w.unturned = Unturned (e.workerTurn w) := by
  cases hphase : w.phase with
  | fresh =>
    simp only [workerTurn, Worker.unturned, hphase, unturned]
    cases e.limiter.take? <;> rfl
  | queued limit =>
    simp only [workerTurn, Worker.unturned, hphase, unturned]
    cases e.limiter.hasGrant w.number <;> rfl
  | working call cutoff =>
    simp only [workerTurn, Worker.unturned, hphase, unturned]
    cases call.reply? e.now with
    | none => rfl
    | some reply =>
      cases reply with
      | none => rfl
      | some answer => cases answer <;> rfl
  | reported permit outcome =>
    simp only [workerTurn, Worker.unturned, hphase, unturned, Unturned_mk]
  | ended outcome => simp only [workerTurn, Worker.unturned, hphase, unturned, Unturned_mk]

/-! ### Turns of a status write -/

theorem unturned_openWrite (e : Engine P R) (job : Nat) (updates : List StatusUpdate) :
    e.unturned.openWrite job updates = Unturned (e.openWrite job updates) := by
  simp only [openWrite]
  split
  · rfl
  · split
    · rfl
    · cases hstore : e.desk.store <;> simp only [unturned, hstore] <;> rfl

theorem unturned_endWrite (e : Engine P R) (job : Nat)
    (ending : Except Crash (Except GateError Nat)) :
    e.unturned.endWrite job ending = Unturned (e.endWrite job ending) := by
  simp only [endWrite]
  cases hstore : e.desk.store <;> simp only [unturned, hstore] <;> rfl

theorem unturned_nextStatement (e : Engine P R) (job : Nat) (w : WriteRun) :
    e.unturned.nextStatement job w = Unturned (e.nextStatement job w) := by
  have hdesk : e.unturned.desk = e.desk := rfl
  simp only [nextStatement, hdesk]
  split
  · rfl
  · rfl
  · exact unturned_endWrite (e.commitStaged job w.staged) job _
  · rfl

theorem unturned_rollBack (e : Engine P R) (job : Nat) (w : WriteRun) (error : GateError) :
    e.unturned.rollBack job w error = Unturned (e.rollBack job w error) := by
  have hdesk (x : Event P R) : (e.unturned.note x).desk = (e.note x).desk := rfl
  simp only [rollBack, hdesk]
  split
  · exact unturned_endWrite (e.note (.stored job .rollback)) job _
  · rfl

theorem unturned_afterStatement (e : Engine P R) (job : Nat) (w : WriteRun) (counts : List Nat) :
    e.unturned.afterStatement job w counts = Unturned (e.afterStatement job w counts) := by
  simp only [afterStatement]
  split
  · exact unturned_nextStatement e job w
  · split
    · exact unturned_rollBack e job w _
    · exact unturned_nextStatement e job _

theorem unturned_cutWrite (e : Engine P R) (job : Nat) :
    e.unturned.cutWrite job = Unturned (e.cutWrite job) :=
  unturned_endWrite e job _

theorem unturned_writeTurn (e : Engine P R) (job : Nat) (w : WriteRun) :
    e.unturned.writeTurn job w = Unturned (e.writeTurn job w) := by
  have hnow : e.unturned.now = e.now := rfl
  have hledger : e.unturned.ledger = e.ledger := rfl
  cases hstep : w.step with
  | queued =>
    simp only [writeTurn, hstep, hledger]
    split
    · exact unturned_nextStatement e job w
    · exact unturned_cutWrite e job
  | opening call =>
    simp only [writeTurn, hstep, hnow]
    split
    · exact unturned_nextStatement e job w
    · exact unturned_endWrite e job _
    · exact unturned_endWrite e job _
    · exact unturned_cutWrite e job
  | stating due =>
    simp only [writeTurn, hstep, hnow, hledger]
    split
    · split
      · exact unturned_endWrite e job _
      · exact unturned_afterStatement e job _ _
    · exact unturned_cutWrite e job
  | asking call =>
    simp only [writeTurn, hstep, hnow]
    split
    · exact unturned_afterStatement e job w _
    · exact unturned_rollBack e job w _
    · exact unturned_endWrite e job _
    · exact unturned_cutWrite e job
  | committing call =>
    simp only [writeTurn, hstep, hnow]
    split
    · exact unturned_endWrite e job _
    · exact unturned_endWrite e job _
    · exact unturned_endWrite e job _
    · exact unturned_cutWrite e job
  | rollingBack error call =>
    simp only [writeTurn, hstep, hnow]
    split
    · exact unturned_endWrite e job _
    · exact unturned_endWrite e job _
    · exact unturned_cutWrite e job

/-! ### Turns of a submission -/

theorem unturned_conclude (e : Engine P R) (a : Assignment P) (ending : Ending R) :
    e.unturned.conclude a ending = Unturned (e.conclude a ending) := by
  simp only [conclude]
  split <;> rfl

theorem unturned_followWrite (a : Assignment P) (result : Option (BatchResult R))
    (turn : Engine P R × WriteTurn) :
    followWrite a result (Unturned turn) = Unturned (followWrite a result turn) := by
  obtain ⟨e, goes | ending⟩ := turn
  · rfl
  · rcases ending with crash | error | rows
    · exact unturned_conclude e a _
    · exact unturned_conclude e a _
    · cases result <;> exact unturned_conclude e a _

theorem unturned_updatesFor (e : Engine P R) (orders : List P) (taken : List (Nat × R)) :
    e.unturned.updatesFor orders taken = e.updatesFor orders taken := by
  induction taken generalizing e with
  | nil => rfl
  | cons first rest ih =>
    obtain ⟨i, answer⟩ := first
    simp only [updatesFor]
    split
    · rfl
    · rename_i order _
      have hcache : ({ e.unturned with cache := (e.updateFor order answer).2 } : Engine P R) =
          { e with cache := (e.updateFor order answer).2 }.unturned := rfl
      have hupdate : e.unturned.updateFor order answer = e.updateFor order answer := rfl
      rw [hupdate, hcache, ih]

theorem unturned_placeOrders (e : Engine P R) (job : Nat) (a : Assignment P)
    (result : BatchResult R) :
    e.unturned.placeOrders job a result = Unturned (e.placeOrders job a result) := by
  rw [placeOrders_eq, placeOrders_eq, unturned_updatesFor]
  split
  · exact unturned_conclude e a _
  · rename_i updates cache _
    rw [← unturned_followWrite, ← unturned_openWrite]
    rfl

theorem unturned_answered (e : Engine P R) (job : Nat) (a : Assignment P) (attempts : Nat)
    (result : BatchResult R) :
    e.unturned.answered job a attempts result = Unturned (e.answered job a attempts result) := by
  cases a with
  | process orders => exact unturned_placeOrders e job _ result
  | submit orders => exact unturned_conclude e _ _
  | hold stay => exact unturned_conclude e _ _
  | execute tasks => exact unturned_conclude e _ _
  | write updates => exact unturned_conclude e _ _
  | occupy stay => exact unturned_conclude e _ _

theorem unturned_openChunk (e : Engine P R) (job attempts : Nat) (run : BatchRun P R) :
    e.unturned.openChunk job attempts run = Unturned (e.openChunk job attempts run) := by
  have hspawn (tasks : List (BatchTask P)) (number position : Nat) :
      (spawnWorkers (R := R) job tasks number position).map (·.unturned) =
        spawnWorkers job tasks number position := by
    induction tasks generalizing number position with
    | nil => rfl
    | cons t rest ih =>
      rw [spawnWorkers, List.map_cons, ih]
      rfl
  simp [openChunk, unturned, chunkSize, hspawn]

theorem unturned_settleChunk (e : Engine P R) (job : Nat) (reason : String) (chunk : List Nat)
    (outcomes : List (Outcome R)) :
    e.unturned.settleChunk job reason chunk outcomes =
      Unturned (e.settleChunk job reason chunk outcomes) := by
  induction chunk generalizing e outcomes with
  | nil => rfl
  | cons index rest ih =>
    simp only [settleChunk]
    split
    · rw [unturned_report, ih]
    · exact ih e outcomes

theorem unturned_endChunk (e : Engine P R) (job attempts : Nat) (run : BatchRun P R)
    (reason : String) :
    e.unturned.endChunk job attempts run reason =
      Unturned (e.endChunk job attempts run reason) := by
  simp only [endChunk, unturned_settleChunk]
  obtain ⟨settled, outcomes⟩ := e.settleChunk job reason run.chunk run.outcomes
  have hdesk : settled.unturned.desk = settled.desk := rfl
  simp only [Unturned_mk, hdesk]
  split
  · rfl
  · split
    · rfl
    · rw [unturned_openChunk]
      rfl

theorem unturned_workersOf (e : Engine P R) (job : Nat) :
    e.unturned.workersOf job = (e.workersOf job).map (·.unturned) := by
  simp only [workersOf, unturned, List.filter_map]
  rfl

theorem filter_unturned (ws : List (Worker P R)) {p : Worker P R → Bool}
    (hp : ∀ w : Worker P R, p w.unturned = p w) :
    (ws.map (·.unturned)).filter p = (ws.filter p).map (·.unturned) := by
  rw [List.filter_map]
  congr 1
  exact List.filter_congr fun w _ => hp w

theorem unturned_dismissAll (e : Engine P R) (job : Nat) :
    e.unturned.dismissAll job = (e.dismissAll job).unturned := by
  have hcut : e.unturned.cutOffs ((e.workersOf job).map (·.unturned)) =
      e.cutOffs (e.workersOf job) := by
    simp only [cutOffs, List.map_map]
    rfl
  have hjournal : e.unturned.journal = e.journal := rfl
  simp only [dismissAll, unturned_workersOf, hcut, hjournal, List.foldl_map]
  simp only [unturned]
  rw [filter_unturned _ fun _ => rfl]
  rfl

theorem unturned_joinTurn (e : Engine P R) (job attempts : Nat) (run : BatchRun P R) :
    e.unturned.joinTurn job attempts run = Unturned (e.joinTurn job attempts run) := by
  simp only [joinTurn, unturned_workersOf, List.find?_map]
  have hcomp : (Worker.hasEnded ∘ fun w : Worker P R => w.unturned) = Worker.hasEnded := rfl
  rw [hcomp]
  cases hfound : (e.workersOf job).find? (·.hasEnded) with
  | some w =>
    simp only [Option.map_some, Unturned_mk, Prod.mk.injEq]
    refine ⟨?_, rfl⟩
    simp only [unturned]
    rw [filter_unturned _ fun _ => rfl]
    rfl
  | none =>
    simp only [Option.map_none, List.isEmpty_map]
    split
    · exact unturned_endChunk e job attempts run _
    · rw [unturned_dismissAll, unturned_endChunk]

theorem unturned_followBatch (job : Nat) (a : Assignment P) (attempts : Nat)
    (turn : Engine P R × BatchTurn P R) :
    followBatch job a attempts (Unturned turn) = Unturned (followBatch job a attempts turn) := by
  obtain ⟨e, stage | result⟩ := turn
  · rfl
  · exact unturned_answered e job a attempts result

theorem unturned_followStart (job : Nat) (a : Assignment P) (attempts : Nat)
    (start : Engine P R × BatchStart P R) :
    followStart job a attempts (Unturned start) = Unturned (followStart job a attempts start) := by
  obtain ⟨e, stage | result | error | crash⟩ := start
  · rfl
  · exact unturned_answered e job a attempts result
  · exact unturned_conclude e a _
  · exact unturned_conclude e a _

theorem unturned_startBatch (e : Engine P R) (job attempts : Nat) (tasks : List (BatchTask P)) :
    e.unturned.startBatch job attempts tasks = Unturned (e.startBatch job attempts tasks) := by
  have hbreaker : e.unturned.breaker = e.breaker := rfl
  have hwall : e.unturned.wall = e.wall := rfl
  rw [startBatch_eq, startBatch_eq, hbreaker, hwall]
  split
  · rfl
  · split
    · rfl
    · split
      · rfl
      · rfl
      · rename_i breaker _
        exact congrArg (fun opened => (opened.1, BatchStart.goesOn opened.2))
          (unturned_openChunk (e.setBreaker breaker) job attempts (.whole tasks))

theorem unturned_sendSingly (e : Engine P R) (job : Nat) (a : Assignment P) (attempts : Nat) :
    e.unturned.sendSingly job a attempts = Unturned (e.sendSingly job a attempts) := by
  simp only [sendSingly, unturned_startBatch, unturned_followStart]

theorem unturned_callBulk (e : Engine P R) (job : Nat) (a : Assignment P)
    (attempt deadline : Nat) :
    e.unturned.callBulk job a attempt deadline = Unturned (e.callBulk job a attempt deadline) := by
  simp only [callBulk]
  split
  · exact unturned_conclude e a _
  · rfl

theorem unturned_startSubmission (e : Engine P R) (job : Nat) (a : Assignment P) :
    e.unturned.startSubmission job a = Unturned (e.startSubmission job a) := by
  have hdesk : e.unturned.desk = e.desk := rfl
  have hnow : e.unturned.now = e.now := rfl
  simp only [startSubmission, hdesk, hnow]
  split
  · exact unturned_sendSingly e job a 0
  · split
    · exact unturned_conclude e a _
    · split
      · exact unturned_callBulk e job a 1 _
      · exact unturned_conclude e a _

theorem unturned_fallBack (e : Engine P R) (job : Nat) (a : Assignment P) (attempts : Nat)
    (failure : DownstreamFailure) :
    e.unturned.fallBack job a attempts failure =
      Unturned (e.fallBack job a attempts failure) := by
  have hdesk : e.unturned.desk = e.desk := rfl
  simp only [fallBack, hdesk]
  split
  · exact unturned_conclude e a _
  · exact unturned_sendSingly e job a attempts

theorem unturned_bulkFailed (e : Engine P R) (job : Nat) (a : Assignment P) (run : BulkRun R)
    (failure : DownstreamFailure) :
    e.unturned.bulkFailed job a run failure = Unturned (e.bulkFailed job a run failure) := by
  have hdesk : e.unturned.desk = e.desk := rfl
  have hnow : e.unturned.now = e.now := rfl
  have hwall : (e.report job .failure).unturned.wall = (e.report job .failure).wall := rfl
  have hbreaker : (e.report job .failure).unturned.breaker = (e.report job .failure).breaker := rfl
  rw [bulkFailed_eq, bulkFailed_eq, hdesk, hnow, unturned_report]
  simp only [hbreaker, hwall]
  split
  · exact unturned_conclude e a _
  · split
    · exact unturned_fallBack _ job a run.attempt failure
    · split
      · exact unturned_conclude _ a _
      · rename_i breaker _
        exact unturned_fallBack ((e.report job .failure).setBreaker breaker) job a run.attempt _
      · rename_i breaker _
        split
        · exact unturned_fallBack ((e.report job .failure).setBreaker breaker) job a run.attempt _
        · rfl

theorem unturned_bulkTurn (e : Engine P R) (job : Nat) (a : Assignment P) (run : BulkRun R) :
    e.unturned.bulkTurn job a run = Unturned (e.bulkTurn job a run) := by
  have hnow : e.unturned.now = e.now := rfl
  simp only [bulkTurn, hnow]
  split
  · rename_i items _
    split
    · exact unturned_answered ((e.note (.bulkEnded job (some (.ok items)))).report job .success)
        job a run.attempt _
    · exact unturned_bulkFailed (e.note (.bulkEnded job (some (.ok items)))) job a run _
  · rename_i failure _
    exact unturned_bulkFailed (e.note (.bulkEnded job (some (.error failure)))) job a run _
  · exact unturned_conclude e a _
  · exact unturned_bulkFailed (e.note (.bulkEnded job none)) job a run _

theorem unturned_checkOverload (e : Engine P R) (job : Nat) (a : Assignment P) :
    e.unturned.checkOverload job a = Unturned (e.checkOverload job a) := by
  have hdetector : e.unturned.detector = e.detector := rfl
  have hprobes : e.unturned.probes = e.probes := rfl
  simp only [checkOverload, hdetector, hprobes]
  split
  · exact unturned_conclude (e.setDetector (e.detector.check e.probes.snapshot).2) a _
  · exact unturned_startSubmission (e.setDetector (e.detector.check e.probes.snapshot).2) job a

theorem unturned_startAdmission (e : Engine P R) (job : Nat) (a : Assignment P) :
    e.unturned.startAdmission job a = Unturned (e.startAdmission job a) := by
  have hdesk : e.unturned.desk = e.desk := rfl
  have hbreaker : e.unturned.breaker = e.breaker := rfl
  have hwall : e.unturned.wall = e.wall := rfl
  rw [startAdmission_eq, startAdmission_eq, hdesk, hbreaker, hwall]
  split
  · rfl
  · split
    · rfl
    · split
      · exact unturned_conclude e.enterRequest a _
      · rename_i error breaker _
        exact unturned_conclude (e.enterRequest.setBreaker breaker) a _
      · rename_i breaker _
        exact unturned_checkOverload (e.enterRequest.setBreaker breaker) job a

/-! ### Turns of a job -/

theorem unturned_keepPermit (e : Engine P R) (stay : Option Nat) :
    e.unturned.keepPermit stay = Unturned (e.keepPermit stay) := by
  cases stay <;> rfl

theorem unturned_startJob (e : Engine P R) (job : Nat) (a : Assignment P) :
    e.unturned.startJob job a = Unturned (e.startJob job a) := by
  cases a with
  | hold stay =>
    have hlimiter : e.unturned.limiter = e.limiter := rfl
    simp only [startJob, hlimiter]
    split
    · rename_i limiter _
      exact unturned_keepPermit { e with limiter } stay
    · rfl
  | execute tasks =>
    simp only [startJob, unturned_startBatch, unturned_followStart]
  | submit orders =>
    simp only [startJob]
    split
    · rfl
    · exact unturned_startSubmission e job _
  | process orders => exact unturned_startAdmission e job _
  | write updates => simp only [startJob, unturned_openWrite, unturned_followWrite]
  | occupy stay => rfl

theorem unturned_jobTurn (e : Engine P R) (j : Job P R) :
    e.unturned.jobTurn j.unturned = Unturned (e.jobTurn j) := by
  obtain ⟨number, a, stage, turn⟩ := j
  cases stage with
  | arriving due => exact unturned_startJob e number a
  | queued limit =>
    have hlimiter : e.unturned.limiter = e.limiter := rfl
    simp only [jobTurn, Job.unturned, hlimiter]
    split
    · exact unturned_keepPermit { e with limiter := e.limiter.claim number } _
    · rfl
  | holding since due => rfl
  | approaching => rfl
  | occupying due => rfl
  | calling run => exact unturned_bulkTurn e number a run
  | backingOff attempt deadline due => exact unturned_callBulk e number a _ deadline
  | joining attempts run =>
    simp only [jobTurn, Job.unturned, unturned_joinTurn, unturned_followBatch]
  | pausing attempts run due => exact unturned_openChunk e number attempts run
  | writing result run =>
    simp only [jobTurn, Job.unturned, unturned_writeTurn, unturned_followWrite]
  | finished time ending => rfl

theorem unturned_serveWorker (e : Engine P R) (w : Worker P R) :
    e.unturned.serveWorker w.unturned = (e.serveWorker w).unturned := by
  simp only [serveWorker, unturned_workerTurn]
  obtain ⟨served, phase⟩ := e.workerTurn w
  simp only [Unturned_mk, unturned, List.map_map]
  congr 1
  apply List.map_congr_left
  intro v _
  by_cases hsame : v.number = w.number
  · simp only [Function.comp_apply, Worker.unturned, if_pos hsame]
    exact if_pos hsame
  · simp only [Function.comp_apply, Worker.unturned, if_neg hsame]
    exact if_neg hsame

theorem unturned_serveJob (e : Engine P R) (j : Job P R) :
    e.unturned.serveJob j.unturned = (e.serveJob j).unturned := by
  simp only [serveJob, unturned_jobTurn]
  obtain ⟨served, stage⟩ := e.jobTurn j
  simp only [Unturned_mk, unturned, List.map_map]
  congr 1
  apply List.map_congr_left
  intro k _
  by_cases hsame : k.number = j.number
  · simp only [Function.comp_apply, Job.unturned, if_pos hsame]
    exact if_pos hsame
  · simp only [Function.comp_apply, Job.unturned, if_neg hsame]
    exact if_neg hsame

theorem isReady_unturned (e : Engine P R) (j : Job P R) :
    j.unturned.isReady e.unturned = j.isReady e := by
  obtain ⟨number, a, stage, turn⟩ := j
  cases stage with
  | joining attempts run =>
    simp only [Job.isReady, Job.unturned, joinIsReady, unturned_workersOf, List.isEmpty_map,
      List.any_map]
    rfl
  | _ => rfl

end Engine

end OrderAdmission
