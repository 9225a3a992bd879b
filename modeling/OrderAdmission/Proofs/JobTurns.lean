import OrderAdmission.Proofs.Sending

/-!
# The turns of a job, one by one

`JobTurn` lists everything that a turn of a job can do to the floor. A job that is *away* leaves the
floor alone or opens the first chunk of its tasks; a status write may change the table; a batch at
work notes an outcome, or closes its chunk and goes on or ends; a holder takes its permit, waits for
it, gives up or gives it back.

The main result is `jobTurn_turn`: **every turn of a job is one of these**. What turns do to numbers,
permits, outcomes and the measure of work is proved by going through the list.
-/
namespace OrderAdmission

variable {P R : Type}

namespace Engine

/-- What a turn of a job can do. -/
inductive JobTurn (e : Engine P R) (j : Job P R) : Engine P R × Stage P R → Prop where
  /-- Paper work. -/
  | leaves {bound : Nat} {result : Engine P R × Stage P R} (away : j.stage.isAway = true)
      (work : bound < j.work e.desk.fallback.retry.maxRetries)
      (h : Leaves (e.heard j) j.assignment bound result) : JobTurn e j result
  /-- A status write goes on or ends. -/
  | writes {result : Option (BatchResult R)} {run : WriteRun} (source : j.stage = .writing result run)
      (work : (e.writeTurn j.number run).2.work < j.work e.desk.fallback.retry.maxRetries)
      (h : Leaves (e.setLedger (e.writeTurn j.number run).1.ledger) j.assignment
        (e.writeTurn j.number run).2.work
        (followWrite j.assignment result (e.writeTurn j.number run))) :
      JobTurn e j (followWrite j.assignment result (e.writeTurn j.number run))
  /-- The first chunk of a batch begins. -/
  | opens {e' : Engine P R} {attempts : Nat} (away : j.stage.isAway = true)
      (floor : SameFloor (e.heard j) e') (some : j.assignment.tasks ≠ [])
      (valid : checkTasks j.assignment.tasks = .ok ())
      (work : batchWork j.assignment.tasks.length j.assignment.load <
        j.work e.desk.fallback.retry.maxRetries) :
      JobTurn e j (e'.openChunk j.number attempts (.whole j.assignment.tasks))
  /-- The next chunk of a batch begins after a pause. -/
  | resumes {attempts due : Nat} {run : BatchRun P R} (source : j.stage = .pausing attempts run due) :
      JobTurn e j (e.openChunk j.number attempts run)
  /-- The outcome of a task is noted. -/
  | collects {attempts : Nat} {run : BatchRun P R} {w : Worker P R}
      (source : j.stage = .joining attempts run)
      (found : (e.workersOf j.number).find? (·.hasEnded) = some w) :
      JobTurn e j (e.collect w, .joining attempts (run.noteOutcome w.index w.outcome?))
  /-- A chunk is closed, and a pause begins. -/
  | pauses {attempts due : Nat} {run : BatchRun P R} (source : j.stage = .joining attempts run)
      (none : (e.workersOf j.number).find? (·.hasEnded) = none) (some : run.remaining ≠ []) :
      JobTurn e j ((e.settled j.number run).1,
        .pausing attempts { run with outcomes := (e.settled j.number run).2 } due)
  /-- A chunk is closed, and the next one begins at once. -/
  | reopens {attempts : Nat} {run : BatchRun P R} (source : j.stage = .joining attempts run)
      (none : (e.workersOf j.number).find? (·.hasEnded) = none) (some : run.remaining ≠ []) :
      JobTurn e j ((e.settled j.number run).1.openChunk j.number attempts
        { run with outcomes := (e.settled j.number run).2 })
  /-- The last chunk is closed. -/
  | finishes {attempts : Nat} {run : BatchRun P R} (source : j.stage = .joining attempts run)
      (none : (e.workersOf j.number).find? (·.hasEnded) = none) (last : run.remaining = []) :
      JobTurn e j ((e.settled j.number run).1.answered j.number j.assignment attempts
        { outcomes := (e.settled j.number run).2 })
  /-- A holder finds a free permit. -/
  | takes {due : Nat} {stay : Option Nat} {limiter : Limiter} (source : j.stage = .arriving due)
      (hold : j.assignment = .hold stay) (free : e.limiter.take? = some limiter) :
      JobTurn e j ((e.setLimiter limiter).keepPermit stay)
  /-- A holder waits for a permit. -/
  | queues {due : Nat} {stay : Option Nat} (source : j.stage = .arriving due)
      (hold : j.assignment = .hold stay) (free : e.limiter.take? = none) :
      JobTurn e j (e.setLimiter (e.limiter.join j.number),
        .queued (e.now + e.limiter.patience))
  /-- A holder takes up the permit that it has been granted. -/
  | claims {limit : Nat} {stay : Option Nat} (source : j.stage = .queued limit)
      (hold : j.assignment = .hold stay) (granted : e.limiter.hasGrant j.number = true) :
      JobTurn e j ((e.setLimiter (e.limiter.claim j.number)).keepPermit stay)
  /-- A holder gives up waiting. -/
  | withdraws {limit : Nat} {stay : Option Nat} (source : j.stage = .queued limit)
      (hold : j.assignment = .hold stay) :
      JobTurn e j (e.setLimiter (e.limiter.withdraw j.number),
        .finished e.now (.ok (.error (.permitTimeout e.limiter.patience))))
  /-- A holder gives its permit back. -/
  | releases {since due : Nat} {stay : Nat} (source : j.stage = .holding since due)
      (hold : j.assignment = .hold (some stay)) :
      JobTurn e j (e.setLimiter e.limiter.release, .finished e.now (.ok (.ok (.permit since))))

theorem joinTurn_turn (e : Engine P R) (j : Job P R) (attempts : Nat) (run : BatchRun P R)
    (source : j.stage = .joining attempts run) :
    JobTurn e j (followBatch j.number j.assignment attempts (e.joinTurn j.number attempts run)) := by
  rw [joinTurn_eq]
  cases hfound : (e.workersOf j.number).find? (·.hasEnded) with
  | some w => exact JobTurn.collects source hfound
  | none =>
    simp only [endChunk_eq]
    by_cases hlast : run.remaining = []
    · simp only [hlast, List.isEmpty_nil, ↓reduceIte]
      exact JobTurn.finishes source hfound hlast
    · have hempty : run.remaining.isEmpty = false := by simpa using hlast
      simp only [hempty, Bool.false_eq_true, ↓reduceIte]
      split
      · exact JobTurn.pauses source hfound hlast
      · exact JobTurn.reopens source hfound hlast

/-- **Every turn of a job is one of those listed.** -/
theorem jobTurn_turn (e : Engine P R) (j : Job P R)
    (hsound : j.stage.Sound e.desk.fallback.retry.maxRetries j.assignment)
    (hready : j.isReady e = true) : JobTurn e j (e.jobTurn j) := by
  -- A job that is away and does not come for a permit is handled by the classification of sending.
  have haway (h : j.stage.isAway = true)
      (hwriting : ∀ result run, j.stage ≠ .writing result run)
      (hhold : ∀ due stay, j.stage = .arriving due → j.assignment ≠ .hold stay) :
      JobTurn e j (e.jobTurn j) := by
    obtain ⟨bound, hbound, hsends⟩ := jobTurn_sends e j h hwriting hhold hsound hready
    generalize e.jobTurn j = result at hsends ⊢
    cases hsends with
    | leaves hleaves => exact JobTurn.leaves h hbound hleaves
    | opens floor some valid work =>
      exact JobTurn.opens h floor some valid (Nat.lt_of_le_of_lt work hbound)
  obtain ⟨number, a, stage, turn⟩ := j
  cases stage with
  | arriving due =>
    cases a with
    | hold stay =>
      simp only [jobTurn, startJob]
      cases hfree : e.limiter.take? with
      | some limiter => exact JobTurn.takes rfl rfl hfree
      | none => exact JobTurn.queues rfl rfl hfree
    | _ => exact haway rfl (by simp) (by simp)
  | queued limit =>
    obtain ⟨stay, rfl⟩ := hsound
    simp only [jobTurn]
    split
    · rename_i hgranted
      exact JobTurn.claims rfl rfl hgranted
    · exact JobTurn.withdraws rfl rfl
  | holding since due =>
    obtain ⟨stay, rfl⟩ := hsound
    exact JobTurn.releases rfl rfl
  | joining attempts run => exact joinTurn_turn e _ attempts run rfl
  | pausing attempts run due => exact JobTurn.resumes rfl
  | finished time ending => cases hready
  | writing result run =>
    exact JobTurn.writes rfl (writeTurn_work e number run)
      ((followWrite_leaves a result _).after (writeTurn_floor e number run))
  | _ => exact haway rfl (by simp) (by simp)

end Engine

end OrderAdmission
