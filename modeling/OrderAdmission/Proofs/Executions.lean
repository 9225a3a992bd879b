import OrderAdmission.Proofs.Acknowledgements
import OrderAdmission.Proofs.Feedback
import OrderAdmission.Proofs.Tables

/-!
# The execution of a batch

A job that executes a batch begins, works on one chunk after another, perhaps with pauses in between, and
ends. `ExecuteTurn` lists its turns by the stage that it stands at, with the engine and the stage that each
of them leads to, and `jobTurn_execute` says that there are no others.

How far a batch has come is said by `Cut`: so many chunks of equal size have begun, and the tasks behind
them remain. The tasks of the last of these chunks have their seats there (`Seats`).
-/
namespace OrderAdmission

variable {P R : Type}

def Stage.isExecution : Stage P R → Bool
  | .arriving _ | .joining _ _ | .pausing _ _ _ | .finished _ _ => true
  | _ => false

namespace Engine

/-! ### Turns -/

/-- What a turn can lead to of a job that executes these tasks and stands at this stage. -/
inductive ExecuteTurn (e : Engine P R) (number : Nat) (tasks : List (BatchTask P)) :
    Stage P R → Engine P R × Stage P R → Prop where
  /-- The batch is admitted, and its first chunk begins. -/
  | begins {due : Nat} {breaker : Breaker} (some : tasks ≠ []) (valid : checkTasks tasks = .ok ())
      (admitted : e.breaker.admitBulk e.wall = .ok (.ok (), breaker)) :
      ExecuteTurn e number tasks (.arriving due)
        ((e.setBreaker breaker).openChunk number 0 (.whole tasks))
  /-- There is nothing to do, or the batch is not admitted. -/
  | declines {due : Nat} {e' : Engine P R} {ending : Ending R} (paper : Paper number e e')
      (empty : ∀ r, ending = .ok (.ok (.batch r)) → r = .empty) :
      ExecuteTurn e number tasks (.arriving due) (e', .finished e.now ending)
  /-- The outcome of a task is noted. -/
  | collects {attempts : Nat} {run : BatchRun P R} {w : Worker P R}
      (found : (e.workersOf number).find? (·.hasEnded) = some w) :
      ExecuteTurn e number tasks (.joining attempts run)
        (e.collect w, .joining attempts (run.noteOutcome w.index w.outcome?))
  /-- A chunk is closed, and a pause begins. -/
  | pauses {attempts : Nat} {run : BatchRun P R}
      (none : (e.workersOf number).find? (·.hasEnded) = none) (some : run.remaining ≠ []) :
      ExecuteTurn e number tasks (.joining attempts run)
        ((e.settled number run).1, .pausing attempts
          { run with outcomes := (e.settled number run).2 } (e.now + e.desk.executor.chunkPause))
  /-- A chunk is closed, and without a pause the next one begins at once. -/
  | reopens {attempts : Nat} {run : BatchRun P R}
      (none : (e.workersOf number).find? (·.hasEnded) = none) (some : run.remaining ≠ [])
      (pauseless : e.desk.executor.chunkPause = 0) :
      ExecuteTurn e number tasks (.joining attempts run)
        ((e.settled number run).1.openChunk number attempts
          { run with outcomes := (e.settled number run).2 })
  /-- The last chunk is closed. -/
  | finishes {attempts : Nat} {run : BatchRun P R}
      (none : (e.workersOf number).find? (·.hasEnded) = none) (last : run.remaining = []) :
      ExecuteTurn e number tasks (.joining attempts run)
        ((e.settled number run).1,
          .finished e.now (.ok (.ok (.batch { outcomes := (e.settled number run).2 }))))
  /-- The next chunk begins after a pause. -/
  | resumes {attempts due : Nat} {run : BatchRun P R} (some : run.remaining ≠ []) (rested : due ≤ e.now) :
      ExecuteTurn e number tasks (.pausing attempts run due) (e.openChunk number attempts run)

section Turns

variable {e : Engine P R} {tasks : List (BatchTask P)}

theorem startJob_execute (e : Engine P R) (number due : Nat) (tasks : List (BatchTask P)) :
    ExecuteTurn e number tasks (.arriving due) (e.startJob number (.execute tasks)) := by
  simp only [startJob]
  rw [startBatch_eq]
  split
  · refine .declines .refl ?_
    rintro r hending
    cases hending
    rfl
  · rename_i hsome
    split
    · refine .declines .refl ?_
      rintro r hending
      cases hending
    · rename_i hvalid
      split
      · refine .declines .refl ?_
        rintro r hending
        cases hending
      · rename_i hasked
        refine .declines (.single (.admits hasked)) ?_
        rintro r hending
        cases hending
      · rename_i hasked
        exact .begins (by simpa using hsome) hvalid hasked

theorem joinTurn_execute (e : Engine P R) (number attempts : Nat) (run : BatchRun P R)
    (tasks : List (BatchTask P)) :
    ExecuteTurn e number tasks (.joining attempts run)
      (followBatch number (.execute tasks) attempts (e.joinTurn number attempts run)) := by
  rw [joinTurn_eq]
  split
  · rename_i w hfound
    exact .collects hfound
  · rename_i hnone
    have hframe := settled_sameJobs e number run
    have hnow : ((e.dismissAll number).settleChunk number (e.closingReason number) run.chunk
        run.outcomes).1.now = e.now := hframe.now
    have hdesk : ((e.dismissAll number).settleChunk number (e.closingReason number) run.chunk
        run.outcomes).1.desk = e.desk := hframe.desk
    simp only [endChunk_eq, hnow, hdesk]
    by_cases hlast : run.remaining = []
    · have hended : ExecuteTurn e number tasks (.joining attempts run) _ := .finishes hnone hlast
      rw [← hframe.now] at hended
      simp only [hlast, List.isEmpty_nil, ↓reduceIte]
      exact hended
    · have hsome : run.remaining.isEmpty = false := by simpa using hlast
      simp only [hsome, Bool.false_eq_true, ↓reduceIte]
      split
      · exact .pauses hnone hlast
      · rename_i hpause
        exact .reopens hnone hlast (Nat.eq_zero_of_not_pos hpause)

/-- **Every turn of a job that executes a batch is one of those listed.** -/
theorem jobTurn_execute (hwf : e.WellFormed) {j : Job P R} (hj : j ∈ e.jobs)
    (hassignment : j.assignment = .execute tasks) (hstage : j.stage.isExecution = true)
    (hready : j.isReady e = true) : ExecuteTurn e j.number tasks j.stage (e.jobTurn j) := by
  have hsound := hwf.sound j hj
  obtain ⟨number, a, stage, turn⟩ := j
  obtain rfl : a = .execute tasks := hassignment
  cases stage with
  | arriving due => exact startJob_execute e number due tasks
  | joining attempts run => exact joinTurn_execute e number attempts run tasks
  | pausing attempts run due => exact .resumes hsound.2 (of_decide_eq_true hready)
  | finished time ending => cases hready
  | _ => cases hstage

theorem ExecuteTurn.aside {number : Nat} {stage : Stage P R} {result : Engine P R × Stage P R}
    (h : ExecuteTurn e number tasks stage result) : Adds (Aside number) e result.1 := by
  have hsettled := settled_aside e number number
  cases h with
  | begins some valid admitted => exact .nothing rfl
  | declines paper empty => exact Paper.aside paper
  | collects found => exact .nothing rfl
  | pauses none some => exact hsettled _
  | reopens none some pauseless => exact (hsettled _).trans (.nothing rfl)
  | finishes none last => exact hsettled _
  | resumes some rested => exact .nothing rfl

end Turns

/-! ### Chunks of equal size -/

/-- A batch of which so many chunks of equal size have begun. -/
structure Cut (size : Nat) (tasks : List (BatchTask P)) (begun : Nat) (run : BatchRun P R) :
    Prop where
  remaining : run.remaining = tasks.drop (begun * size)
  position : run.position = min (begun * size) tasks.length

/-- The workers of a job are at work on the chunk with this number, each on a task of its own. -/
structure Seats (e : Engine P R) (job size chunk : Nat) : Prop where
  seat : ∀ w ∈ e.workers, w.job = job → w.position / size = chunk
  apart : ∀ w ∈ e.workers, ∀ v ∈ e.workers, w.job = job → v.job = job →
    w.position = v.position → w = v

section Chunks

variable {e e' : Engine P R} {job size chunk : Nat} {tasks : List (BatchTask P)} {run : BatchRun P R}

theorem Cut.whole (size : Nat) (tasks : List (BatchTask P)) :
    Cut (R := R) size tasks 0 (.whole tasks) := by
  constructor
  · rw [Nat.zero_mul, List.drop_zero]
    rfl
  · rw [Nat.zero_mul, Nat.zero_min]
    rfl

theorem Cut.noteOutcome {begun : Nat} (h : Cut size tasks begun run) (index : Nat)
    (outcome : Option (Outcome R)) : Cut size tasks begun (run.noteOutcome index outcome) := by
  obtain ⟨hposition, hremaining, _⟩ := noteOutcome_position run index outcome
  exact ⟨hremaining.trans h.remaining, hposition.trans h.position⟩

theorem Cut.some_iff {begun : Nat} (h : Cut size tasks begun run) :
    run.remaining ≠ [] ↔ begun * size < tasks.length := by
  rw [h.remaining, Ne, List.drop_eq_nil_iff, Nat.not_le]

theorem Cut.take {begun : Nat} (h : Cut size tasks begun run) :
    run.remaining.take size = chunkAt size begun tasks := by
  rw [h.remaining]
  rfl

theorem le_div_of_mem_chunkAt (hvalid : checkTasks tasks = .ok ()) (hsize : 0 < size) {q : Nat}
    {t : BatchTask P} (ht : tasks[q]? = some t)
    (hmem : t.index ∈ (chunkAt size chunk tasks).map (·.index)) : chunk ≤ q / size := by
  obtain ⟨t', ht', hindex⟩ := List.mem_map.mp hmem
  obtain ⟨i, hi⟩ := List.getElem?_of_mem ht'
  rw [chunkAt, List.getElem?_take] at hi
  split at hi
  · rw [List.getElem?_drop] at hi
    obtain ⟨hsame, _⟩ := position_unique hvalid hi ht hindex
    rw [Nat.le_div_iff_mul_le hsize, ← hsame]
    exact Nat.le_add_right _ _
  · cases hi

theorem Cut.openChunk (job attempts : Nat) {begun : Nat} (h : Cut e.chunkSize tasks begun run) :
    ∃ run', (e.openChunk job attempts run).2 = .joining attempts run' ∧
      Cut e.chunkSize tasks (begun + 1) run' ∧ run'.outcomes = run.outcomes ∧
      run'.chunk = (chunkAt e.chunkSize begun tasks).map (·.index) ∧
      run'.deadline = e.now + e.desk.executor.chunkTimeout := by
  refine ⟨_, rfl, ⟨?_, ?_⟩, rfl, ?_, rfl⟩
  · simp only [h.remaining, List.drop_drop]
    rw [Nat.succ_mul]
  · simp only [h.remaining, h.position, List.length_take, List.length_drop]
    rw [Nat.succ_mul]
    omega
  · rw [← h.take]

theorem Seats.mono (h : Seats e job size chunk)
    (hworkers : ∀ w ∈ e'.workers, w.job = job → w ∈ e.workers) : Seats e' job size chunk := by
  constructor
  · exact fun w hw hjob => h.seat w (hworkers w hw hjob) hjob
  · exact fun w hw v hv hwjob hvjob =>
      h.apart w (hworkers w hw hwjob) v (hworkers v hv hvjob) hwjob hvjob

theorem Seats.openChunk (attempts : Nat) {begun : Nat} (hcut : Cut e.chunkSize tasks begun run)
    (hsome : run.remaining ≠ []) (hnone : ∀ w ∈ e.workers, w.job ≠ job) :
    Seats (e.openChunk job attempts run).1 job e.chunkSize begun := by
  have hstart : run.position = begun * e.chunkSize :=
    hcut.position.trans (Nat.min_eq_left (Nat.le_of_lt (hcut.some_iff.mp hsome)))
  have hnew {w : Worker P R} (hw : w ∈ (e.openChunk job attempts run).1.workers)
      (hjob : w.job = job) : w ∈ spawnWorkers job (run.remaining.take e.chunkSize) e.nextNumber
        run.position := by
    rcases List.mem_append.mp hw with hw | hw
    · exact absurd hjob (hnone w hw)
    · exact hw
  constructor
  · intro w hw hjob
    obtain ⟨i, htask, hposition⟩ := mem_spawnWorkers (hnew hw hjob)
    have hlength := (List.getElem?_eq_some_iff.mp htask).1
    rw [List.length_take] at hlength
    rw [hposition, hstart]
    exact Nat.div_eq_of_lt_le (Nat.le_add_right _ _) (by rw [Nat.succ_mul]; omega)
  · intro w hw v hv hwjob hvjob hsame
    have hnodup : ((spawnWorkers (R := R) job (run.remaining.take e.chunkSize) e.nextNumber
        run.position).map (·.position)).Nodup := by
      rw [map_position_spawnWorkers]
      exact List.nodup_range'
    exact List.inj_on_of_nodup_map hnodup (hnew hw hwjob) (hnew hv hvjob) hsame

theorem Seats.serveWorker (hwf : e.WellFormed) {w : Worker P R} (hw : w ∈ e.workers)
    (h : Seats e job size chunk) : Seats (e.serveWorker w) job size chunk := by
  constructor
  · intro v hv hjob
    rcases (mem_serveWorker hwf hw).mp hv with rfl | ⟨hv, _⟩
    · exact h.seat w hw hjob
    · exact h.seat v hv hjob
  · intro v hv u hu hvjob hujob hsame
    rcases (mem_serveWorker hwf hw).mp hv with rfl | ⟨hv, hvne⟩
    · rcases (mem_serveWorker hwf hw).mp hu with rfl | ⟨hu, hune⟩
      · rfl
      · exact absurd (h.apart w hw u hu hvjob hujob hsame).symm hune
    · rcases (mem_serveWorker hwf hw).mp hu with rfl | ⟨hu, _⟩
      · exact absurd (h.apart v hv w hw hvjob hujob hsame) hvne
      · exact h.apart v hv u hu hvjob hujob hsame

theorem Seats.lt_position (h : Seats e job size chunk) (hsize : 0 < size)
    (hcut : Cut size tasks (chunk + 1) run) {w : Worker P R} (hw : w ∈ e.workers) (hjob : w.job = job)
    (htask : w.position < tasks.length) : w.position < run.position := by
  have hseat := h.seat w hw hjob
  have hchunk : w.position < (chunk + 1) * size :=
    (Nat.div_lt_iff_lt_mul hsize).mp (hseat ▸ Nat.lt_succ_self _)
  rw [hcut.position]
  exact lt_min hchunk htask

end Chunks

end Engine

end OrderAdmission
