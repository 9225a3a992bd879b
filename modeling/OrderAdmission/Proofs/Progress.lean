import Mathlib.Algebra.GroupWithZero.Nat
import Mathlib.Algebra.Order.BigOperators.Group.List
import OrderAdmission.Proofs.WellFormed

/-!
# Runs come to an end

Every turn uses work up. A move of the clock uses nothing up, but after it somebody is able to go
on, so that no two moves of the clock follow each other. Twice the work that is left, and one more
while nobody is able to go on, is therefore a measure that every move lowers.

The main result is `run_settled`: **a run goes on until nobody will ever be able to go on**, and then
all jobs have ended, but for those that are to keep the table for good or wait behind one of these.
-/
namespace OrderAdmission

variable {P R : Type}

namespace Engine

/-! ### Work -/

theorem foldr_add_eq_sum {α : Type} (f : α → Nat) (xs : List α) :
    xs.foldr (fun x rest => f x + rest) 0 = (xs.map f).sum := by
  induction xs with
  | nil => rfl
  | cons x xs ih => rw [List.foldr_cons, ih, List.map_cons, List.sum_cons]

def jobsWork (e : Engine P R) (jobs : List (Job P R)) : Nat :=
  (jobs.map fun j => j.work e.desk.fallback.retry.maxRetries).sum

def workersWork (workers : List (Worker P R)) : Nat := (workers.map (·.work)).sum

theorem work_eq (e : Engine P R) : e.work = workersWork e.workers + e.jobsWork e.jobs := by
  unfold work workersWork jobsWork
  rw [foldr_add_eq_sum, foldr_add_eq_sum]

theorem workersWork_append (xs ys : List (Worker P R)) :
    workersWork (xs ++ ys) = workersWork xs + workersWork ys := by
  simp only [workersWork, List.map_append, List.sum_append]

theorem workersWork_cons (w : Worker P R) (ws : List (Worker P R)) :
    workersWork (w :: ws) = w.work + workersWork ws := by
  simp only [workersWork, List.map_cons, List.sum_cons]

theorem jobsWork_split (e : Engine P R) (before after : List (Job P R)) (j : Job P R) :
    e.jobsWork (before ++ j :: after) =
      e.jobsWork before + j.work e.desk.fallback.retry.maxRetries + e.jobsWork after := by
  simp only [jobsWork, List.map_append, List.map_cons, List.sum_append, List.sum_cons]
  omega

theorem workersWork_le {xs ys : List (Worker P R)} (h : xs.Sublist ys) :
    workersWork xs ≤ workersWork ys := by
  induction h with
  | slnil => exact Nat.le_refl _
  | cons w _ ih =>
    rw [workersWork_cons]
    omega
  | cons_cons w _ ih =>
    rw [workersWork_cons, workersWork_cons]
    omega

theorem work_pos_of_worker (w : Worker P R) : 0 < w.work := by
  obtain ⟨number, job, position, index, payload, phase, turn⟩ := w
  cases phase <;> simp [Worker.work]

theorem workersWork_filter_lt {p : Worker P R → Bool} {w : Worker P R} {ws : List (Worker P R)}
    (hw : w ∈ ws) (hp : p w = false) : workersWork (ws.filter p) < workersWork ws := by
  obtain ⟨before, after, rfl⟩ := List.append_of_mem hw
  have hbefore : workersWork (before.filter p) ≤ workersWork before :=
    workersWork_le List.filter_sublist
  have hafter : workersWork (after.filter p) ≤ workersWork after :=
    workersWork_le List.filter_sublist
  have hpos := work_pos_of_worker w
  rw [List.filter_append, List.filter_cons, hp, workersWork_append, workersWork_append,
    workersWork_cons]
  simp only [Bool.false_eq_true, ↓reduceIte]
  omega

theorem workersWork_spawnWorkers (job : Nat) (tasks : List (BatchTask P)) (number position : Nat) :
    workersWork (spawnWorkers (R := R) job tasks number position) = 5 * tasks.length := by
  induction tasks generalizing number position with
  | nil => rfl
  | cons t rest ih =>
    rw [spawnWorkers, workersWork_cons, ih, List.length_cons]
    simp only [Worker.work]
    omega

/-! ### Turns use work up -/

theorem workerTurn_work (e : Engine P R) (w : Worker P R)
    (hready : w.isReady e.limiter e.now = true) :
    Worker.work { w with phase := (e.workerTurn w).2 } < w.work := by
  obtain ⟨number, job, position, index, payload, phase, turn⟩ := w
  cases phase with
  | fresh =>
    simp only [workerTurn]
    split <;> simp [Worker.work, startCall]
  | queued limit =>
    simp only [workerTurn]
    split <;> simp [Worker.work, startCall]
  | working call cutoff =>
    simp only [workerTurn]
    split <;> simp [Worker.work, endCall]
  | reported permit outcome => simp [workerTurn, Worker.work]
  | ended outcome => cases hready

theorem serveWorker_work {e : Engine P R} (hwf : e.WellFormed) {w : Worker P R}
    (hw : w ∈ e.workers) (hready : w.isReady e.limiter e.now = true) :
    (e.serveWorker w).work < e.work := by
  obtain ⟨before, after, hold, hnew⟩ := serveWorker_workers hwf hw
  have hhouse := workerTurn_house e w
  have hless := workerTurn_work e w hready
  have hjobs : (e.serveWorker w).jobsWork (e.serveWorker w).jobs = e.jobsWork e.jobs := by
    simp only [serveWorker, jobsWork, hhouse.jobs, hhouse.desk]
  rw [work_eq, work_eq, hjobs, hnew, hold, workersWork_append, workersWork_append,
    workersWork_cons, workersWork_cons]
  omega

theorem chunkSize_pos (e : Engine P R) : 0 < e.chunkSize :=
  Nat.lt_of_lt_of_le Nat.one_pos (Nat.le_max_left 1 _)

/-- What a chunk takes over from a batch is less work in the hands of its workers. -/
theorem openChunk_work (e : Engine P R) (job attempts maxRetries : Nat) (a : Assignment P)
    (run : BatchRun P R) (hsome : run.remaining ≠ []) :
    workersWork (e.openChunk job attempts run).1.workers +
        (e.openChunk job attempts run).2.work maxRetries a <
      workersWork e.workers + batchWork run.remaining.length a.load := by
  have hlength : 0 < run.remaining.length := List.length_pos_iff.mpr hsome
  have hsize := chunkSize_pos e
  simp only [openChunk, workersWork_append, workersWork_spawnWorkers, Stage.work_joining,
    List.length_take, List.length_drop, batchWork]
  omega

theorem settled_work (e : Engine P R) (job : Nat) (run : BatchRun P R) :
    workersWork (e.settled job run).1.workers ≤ workersWork e.workers := by
  rw [(settled_floor e job run).workers]
  exact workersWork_le List.filter_sublist

theorem keepPermit_work (e : Engine P R) (maxRetries : Nat) (a : Assignment P)
    (stay : Option Nat) : (e.keepPermit stay).2.work maxRetries a ≤ 1 := by
  cases stay with
  | none => exact Nat.zero_le 1
  | some stay => exact Nat.le_refl 1

/-- A turn of a job uses work up, its own or that of its workers. -/
theorem JobTurn.work {e : Engine P R} {j : Job P R} {result : Engine P R × Stage P R}
    (hsound : j.stage.Sound e.desk.fallback.retry.maxRetries j.assignment)
    (h : JobTurn e j result) :
    workersWork result.1.workers +
        result.2.work e.desk.fallback.retry.maxRetries j.assignment <
      workersWork e.workers + j.work e.desk.fallback.retry.maxRetries := by
  cases h with
  | leaves away work h =>
    have hwork := h.work
    rw [heard_desk] at hwork
    rw [h.floor.workers, heard_workers]
    omega
  | @writes result run source work h =>
    have hwork : (followWrite j.assignment result (e.writeTurn j.number run)).2.work
        e.desk.fallback.retry.maxRetries j.assignment ≤ (e.writeTurn j.number run).2.work := h.work
    have hworkers : (followWrite j.assignment result (e.writeTurn j.number run)).1.workers =
        e.workers := h.floor.workers
    rw [hworkers]
    omega
  | @opens e' attempts away floor some valid work =>
    have hopen := openChunk_work e' j.number attempts e.desk.fallback.retry.maxRetries j.assignment
      (.whole j.assignment.tasks) some
    rw [floor.workers, heard_workers] at hopen
    simp only [BatchRun.whole] at hopen ⊢
    omega
  | @resumes attempts due run source =>
    rw [source] at hsound
    rw [Job.work_eq, source, Stage.work_pausing]
    exact openChunk_work e j.number attempts _ j.assignment run hsound.2
  | @collects attempts run w source found =>
    have hmem : w ∈ e.workers := List.mem_of_mem_filter (List.mem_of_find?_eq_some found)
    have hless : workersWork (e.collect w).workers < workersWork e.workers :=
      workersWork_filter_lt hmem (by simp)
    have hsame : (run.noteOutcome w.index w.outcome?).remaining = run.remaining := by
      cases w.outcome? <;> rfl
    rw [Job.work_eq, source, Stage.work_joining, Stage.work_joining, hsame]
    exact Nat.add_lt_add_right hless _
  | @pauses attempts due run source none some =>
    have hless := settled_work e j.number run
    rw [Job.work_eq, source, Stage.work_joining, Stage.work_pausing]
    simp only
    omega
  | @reopens attempts run source none some =>
    have hless := settled_work e j.number run
    have hopen := openChunk_work (e.settled j.number run).1 j.number attempts
      e.desk.fallback.retry.maxRetries j.assignment
      { run with outcomes := (e.settled j.number run).2 } some
    rw [Job.work_eq, source, Stage.work_joining]
    simp only at hopen ⊢
    omega
  | @finishes attempts run source none last =>
    rw [source] at hsound
    have hlength : (e.settled j.number run).2.length = j.assignment.tasks.length :=
      (length_settleChunk _ _ _ _ _).trans hsound
    have hleaves := answered_leaves (e.settled j.number run).1 j.number j.assignment attempts
      { outcomes := (e.settled j.number run).2 } (hlength ▸ j.assignment.length_tasks_le)
    have hwork := hleaves.work
    have hless := settled_work e j.number run
    rw [(settled_sameJobs e j.number run).desk] at hwork
    rw [hleaves.floor.workers, Job.work_eq, source, Stage.work_joining]
    simp only [batchWork]
    omega
  | @takes due stay limiter source hold free =>
    have hwork := keepPermit_work (e.setLimiter limiter) e.desk.fallback.retry.maxRetries
      j.assignment stay
    rw [(keepPermit_floor (e.setLimiter limiter) stay).workers, Job.work_eq, source,
      Stage.work_arriving]
    have hsame : (e.setLimiter limiter).workers = e.workers := rfl
    rw [hsame]
    omega
  | queues source hold free =>
    rw [Job.work_eq, source, Stage.work_arriving]
    simp only [setLimiter, Stage.work, Job.work]
    omega
  | @claims limit stay source hold granted =>
    have hwork := keepPermit_work (e.setLimiter (e.limiter.claim j.number))
      e.desk.fallback.retry.maxRetries j.assignment stay
    rw [(keepPermit_floor (e.setLimiter (e.limiter.claim j.number)) stay).workers, Job.work_eq,
      source]
    simp only [setLimiter, Stage.work, Job.work] at hwork ⊢
    omega
  | withdraws source hold =>
    rw [Job.work_eq, source]
    simp [setLimiter, Stage.work, Job.work]
  | releases source hold =>
    rw [Job.work_eq, source]
    simp [setLimiter, Stage.work, Job.work]

theorem serveJob_work {e : Engine P R} (hwf : e.WellFormed) {j : Job P R} (hj : j ∈ e.jobs)
    (hready : j.isReady e = true) : (e.serveJob j).work < e.work := by
  obtain ⟨before, after, hold, hnew⟩ := serveJob_jobs hwf hj hready
  have hturn := jobTurn_turn e j (hwf.sound j hj) hready
  have hless := hturn.work (hwf.sound j hj)
  have hdesk : (e.serveJob j).desk = e.desk := hturn.sameJobs.desk
  have hworkers : (e.serveJob j).workers = (e.jobTurn j).1.workers := rfl
  have hsame (jobs : List (Job P R)) : (e.serveJob j).jobsWork jobs = e.jobsWork jobs := by
    simp only [jobsWork, hdesk]
  rw [work_eq, work_eq, hsame, hnew, hold, jobsWork_split, jobsWork_split, hworkers, Job.work_eq]
  simp only
  omega

end Engine

/-! ### After the clock has moved -/

theorem Worker.isReady_of_due {w : Worker P R} {time : Nat} (l : Limiter)
    (h : w.due? = some time) : w.isReady l time = true := by
  obtain ⟨number, job, position, index, payload, phase, turn⟩ := w
  cases phase with
  | fresh => rfl
  | queued limit =>
    have hlimit : limit = time := Option.some.inj h
    simp [Worker.isReady, hlimit]
  | working call cutoff =>
    have htime : earlier call.due? cutoff = time := Option.some.inj h
    cases hdue : call.due? with
    | none =>
      rw [hdue] at htime
      simp only [Worker.isReady, Bool.or_eq_true, decide_eq_true_eq]
      exact Or.inr (Nat.le_of_eq htime)
    | some t =>
      rw [hdue] at htime
      have hmin : min t cutoff = time := htime
      simp only [Worker.isReady, Conduct.arrived, hdue, Bool.or_eq_true, decide_eq_true_eq]
      omega
  | reported permit outcome | ended outcome => cases h

theorem arrived_or_cutoff {α : Type} (call : Conduct α) (cutoff : Nat) :
    (call.arrived (earlier call.due? cutoff) || decide (cutoff ≤ earlier call.due? cutoff)) =
      true := by
  cases hdue : call.due? with
  | none => simp [earlier]
  | some t =>
    simp only [Conduct.arrived, hdue, Bool.or_eq_true, decide_eq_true_eq]
    simp only [earlier]
    omega

theorem WriteRun.isReady_due (w : WriteRun) (job : Nat) (ledger : Ledger) :
    w.isReady job ledger w.due = true := by
  obtain ⟨total, limit, remaining, made, staged, step⟩ := w
  cases step with
  | queued => simp [WriteRun.isReady, WriteRun.due]
  | opening call => exact arrived_or_cutoff call limit
  | stating due =>
    simp only [WriteRun.isReady, WriteRun.hasCome, Bool.or_eq_true, decide_eq_true_eq]
    simp only [WriteRun.due]
    omega
  | asking call => exact arrived_or_cutoff call limit
  | committing call => exact arrived_or_cutoff call limit
  | rollingBack error call => exact arrived_or_cutoff call limit

theorem Job.isReady_of_due {e : Engine P R} {j : Job P R} (h : j.due? = some e.now) :
    j.isReady e = true := by
  obtain ⟨number, a, stage, turn⟩ := j
  cases stage with
  | approaching => cases h
  | finished time ending => cases h
  | occupying due =>
    have hdue : due = some e.now := h
    simp [Job.isReady, hdue]
  | calling run =>
    have hdue : earlier run.call.due? run.cutoff = e.now := Option.some.inj h
    simp only [Job.isReady, ← hdue]
    exact arrived_or_cutoff run.call run.cutoff
  | joining attempts run =>
    have hdue : run.deadline = e.now := Option.some.inj h
    simp [Job.isReady, Engine.joinIsReady, hdue]
  | writing result run =>
    have hdue : run.due = e.now := Option.some.inj h
    simp only [Job.isReady, ← hdue]
    exact run.isReady_due number e.ledger
  | arriving due => simpa [Job.isReady] using Nat.le_of_eq (Option.some.inj h)
  | queued limit =>
    have hdue : limit = e.now := Option.some.inj h
    simp [Job.isReady, hdue]
  | holding since due => simpa [Job.isReady] using Nat.le_of_eq (Option.some.inj h)
  | backingOff attempt deadline due =>
    simpa [Job.isReady] using Nat.le_of_eq (Option.some.inj h)
  | pausing attempts run due => simpa [Job.isReady] using Nat.le_of_eq (Option.some.inj h)

/-! ### Time goes on -/

theorem Conduct.arrived_mono {α : Type} {call : Conduct α} {first later : Nat} (hle : first ≤ later)
    (h : call.arrived first = true) : call.arrived later = true := by
  unfold Conduct.arrived at h ⊢
  split
  · rename_i t hdue
    rw [hdue] at h
    exact decide_eq_true (Nat.le_trans (of_decide_eq_true h) hle)
  · rename_i hdue
    rw [hdue] at h
    cases h

section Later

variable {first later : Nat} (hle : first ≤ later)

include hle

theorem decide_le_mono {due : Nat} (h : decide (due ≤ first) = true) :
    decide (due ≤ later) = true :=
  decide_eq_true (Nat.le_trans (of_decide_eq_true h) hle)

theorem or_due_mono {p q : Bool} {due : Nat} (hpq : p = true → q = true)
    (h : (p || decide (due ≤ first)) = true) : (q || decide (due ≤ later)) = true := by
  rw [Bool.or_eq_true] at h ⊢
  rcases h with hp | hdue
  · exact Or.inl (hpq hp)
  · exact Or.inr (decide_le_mono hle hdue)

theorem Worker.isReady_mono {w : Worker P R} {l : Limiter} (h : w.isReady l first = true) :
    w.isReady l later = true := by
  obtain ⟨number, job, position, index, payload, phase, turn⟩ := w
  cases phase with
  | fresh => rfl
  | queued limit => exact or_due_mono hle id h
  | working call cutoff => exact or_due_mono hle (Conduct.arrived_mono hle) h
  | reported permit outcome => rfl
  | ended outcome => cases h

theorem WriteRun.isReady_mono {run : WriteRun} {job : Nat} {ledger : Ledger}
    (h : run.isReady job ledger first = true) : run.isReady job ledger later = true := by
  refine or_due_mono hle ?_ h
  intro hcome
  obtain ⟨total, limit, remaining, made, staged, step⟩ := run
  cases step with
  | queued => exact hcome
  | opening call => exact Conduct.arrived_mono hle hcome
  | stating due => exact decide_le_mono hle hcome
  | asking call => exact Conduct.arrived_mono hle hcome
  | committing call => exact Conduct.arrived_mono hle hcome
  | rollingBack error call => exact Conduct.arrived_mono hle hcome

theorem Job.isReady_mono {e : Engine P R} {j : Job P R}
    (h : j.isReady { e with now := first } = true) : j.isReady { e with now := later } = true := by
  obtain ⟨number, a, stage, turn⟩ := j
  cases stage with
  | arriving due => exact decide_le_mono hle h
  | queued limit => exact or_due_mono hle id h
  | holding since due => exact decide_le_mono hle h
  | approaching => exact h
  | occupying due =>
    cases due with
    | none => cases h
    | some due => exact decide_le_mono hle h
  | calling run => exact or_due_mono hle (Conduct.arrived_mono hle) h
  | backingOff attempt deadline due => exact decide_le_mono hle h
  | joining attempts run => exact or_due_mono hle id h
  | pausing attempts run due => exact decide_le_mono hle h
  | writing result run => exact WriteRun.isReady_mono hle h
  | finished time ending => cases h

end Later

namespace Engine

theorem Move.now_le {e e' : Engine P R} (hmove : Move e e') (hwf : e.WellFormed) :
    e.now ≤ e'.now := by
  cases hmove with
  | @worker w member ready => exact Nat.le_of_eq (workerTurn_house e w).now.symm
  | @job j member ready =>
    exact Nat.le_of_eq (jobTurn_turn e j (hwf.sound j member) ready).sameJobs.now.symm
  | @tick time quiet due =>
    by_contra hback
    have hle : time ≤ e.now := Nat.le_of_not_le hback
    -- whoever is able to go on at an earlier time would be able to now
    rcases (firstTurn_spec due).1 with ⟨w, hw, hdue⟩ | ⟨j, hj, hdue⟩
    · have hready := Worker.isReady_mono hle (Worker.isReady_of_due e.limiter hdue)
      rw [quiet.workers w hw] at hready
      cases hready
    · have hready : j.isReady { e with now := time } = true := Job.isReady_of_due hdue
      have hnow : j.isReady e = true := Job.isReady_mono hle hready
      rw [quiet.jobs j hj] at hnow
      cases hnow

theorem Course.now_le {e e' : Engine P R} (hcourse : Course e e') (hwf : e.WellFormed) :
    e.now ≤ e'.now := by
  refine Course.carries (I := fun e₁ => e.now ≤ e₁.now) ?_ hcourse hwf (Nat.le_refl _)
  intro e₁ e₂ hmove hwf₁ hle
  exact Nat.le_trans hle (hmove.now_le hwf₁)

theorem not_quiet_of_due {e : Engine P R} {time : Nat} (h : e.due? = some time) :
    ¬ Quiet { e with now := time } := by
  intro hquiet
  rcases (firstTurn_spec h).1 with ⟨w, hw, hdue⟩ | ⟨j, hj, hdue⟩
  · have hready := Worker.isReady_of_due e.limiter hdue
    rw [hquiet.workers w hw] at hready
    cases hready
  · have hready := Job.isReady_of_due (e := { e with now := time }) hdue
    rw [hquiet.jobs j hj] at hready
    cases hready

/-! ### Every move goes down -/

open Classical in
/-- Twice the work that is left, and one more while nobody is able to go on. -/
noncomputable def potential (e : Engine P R) : Nat := 2 * e.work + if e.Quiet then 1 else 0

theorem potential_le (e : Engine P R) : e.potential ≤ 2 * e.work + 1 := by
  unfold potential
  split <;> omega

theorem potential_of_not_quiet {e : Engine P R} (h : ¬ e.Quiet) : e.potential = 2 * e.work := by
  unfold potential
  rw [if_neg h]
  rfl

theorem Move.potential_lt {e e' : Engine P R} (hwf : e.WellFormed) (hmove : Move e e') :
    e'.potential < e.potential := by
  cases hmove with
  | @worker w member ready =>
    have hbusy : ¬ e.Quiet := by
      intro hquiet
      rw [hquiet.workers w member] at ready
      cases ready
    have hless := serveWorker_work hwf member ready
    have hle := potential_le (e.serveWorker w)
    rw [potential_of_not_quiet hbusy]
    omega
  | @job j member ready =>
    have hbusy : ¬ e.Quiet := by
      intro hquiet
      rw [hquiet.jobs j member] at ready
      cases ready
    have hless := serveJob_work hwf member ready
    have hle := potential_le (e.serveJob j)
    rw [potential_of_not_quiet hbusy]
    omega
  | @tick time quiet due =>
    have hsame : ({ e with now := time } : Engine P R).work = e.work := rfl
    rw [potential_of_not_quiet (not_quiet_of_due due), hsame]
    unfold potential
    rw [if_pos quiet]
    omega

theorem exists_move {e : Engine P R} (h : ¬ e.Settled) : ∃ e', Move e e' := by
  by_cases hquiet : e.Quiet
  · cases hdue : e.due? with
    | none => exact absurd ⟨hquiet, hdue⟩ h
    | some time => exact ⟨_, Move.tick hquiet hdue⟩
  · by_contra hstuck
    refine hquiet ⟨?_, ?_⟩
    · intro w hw
      rw [Bool.eq_false_iff]
      intro hready
      exact hstuck ⟨_, Move.worker hw hready⟩
    · intro j hj
      rw [Bool.eq_false_iff]
      intro hready
      exact hstuck ⟨_, Move.job hj hready⟩

theorem exists_settled {e : Engine P R} (hwf : e.WellFormed) :
    ∃ done, Course e done ∧ done.Settled := by
  induction hpotential : e.potential using Nat.strong_induction_on generalizing e with
  | _ n ih =>
    by_cases hsettled : e.Settled
    · exact ⟨e, Relation.ReflTransGen.refl, hsettled⟩
    · obtain ⟨e', hmove⟩ := exists_move hsettled
      obtain ⟨done, hcourse, hdone⟩ :=
        ih e'.potential (hpotential ▸ hmove.potential_lt hwf) (hmove.wellFormed hwf) rfl
      exact ⟨done, Relation.ReflTransGen.head hmove hcourse, hdone⟩

theorem runFor_settled (steps : Nat) {e : Engine P R} (hcalled : e.Called)
    (hwf : e.unturned.WellFormed) (hsteps : e.unturned.potential < steps) :
    (runFor steps e).unturned.Settled := by
  induction steps generalizing e with
  | zero => exact absurd hsteps (Nat.not_lt_zero _)
  | succ steps ih =>
    unfold runFor
    cases hstep : e.step with
    | none => exact settled_of_step hcalled hstep
    | some e' =>
      obtain ⟨hmove, hcalled'⟩ := step_move hcalled hstep
      have hless := hmove.potential_lt hwf
      exact ih hcalled' (hmove.wellFormed hwf) (by omega)

theorem work_unturned (e : Engine P R) : e.unturned.work = e.work := by
  rw [work_eq, work_eq]
  simp only [workersWork, jobsWork, unturned, List.map_map]
  rfl

/-- **A run goes on until nobody will ever be able to go on.** -/
theorem run_settled {e : Engine P R} (hwf : e.unturned.WellFormed) :
    e.run.unturned.Settled := by
  have hsame : e.callAfterTurn.work = e.work := by
    rw [← work_unturned, unturned_callAfterTurn, work_unturned]
  have hle := potential_le e.unturned
  rw [work_unturned] at hle
  refine runFor_settled _ (called_callAfterTurn e) ?_ ?_
  · rw [unturned_callAfterTurn]
    exact hwf
  · rw [unturned_callAfterTurn, hsame]
    omega

/-! ### Who is left in the end -/

theorem Settled.due_job {e : Engine P R} (h : e.Settled) {j : Job P R} (hj : j ∈ e.jobs) :
    j.due? = none :=
  (firstTurn_eq_none h.due).2 j hj

theorem Settled.finished {e : Engine P R} (hsettled : e.Settled) (hwf : e.WellFormed)
    {j : Job P R} (hj : j ∈ e.jobs) (hjob : j.assignment.isOccupation = false) :
    ∃ time ending, j.stage = .finished time ending := by
  have hdue := hsettled.due_job hj
  have hsound := hwf.sound j hj
  obtain ⟨number, a, stage, turn⟩ := j
  cases stage with
  | finished time ending => exact ⟨time, ending, rfl⟩
  | approaching =>
    rw [show a.isOccupation = true from hsound] at hjob
    cases hjob
  | occupying due =>
    rw [show a.isOccupation = true from hsound] at hjob
    cases hjob
  | _ => cases hdue

theorem Settled.workers {e : Engine P R} (hsettled : e.Settled) (hwf : e.WellFormed) :
    e.workers = [] := by
  rw [List.eq_nil_iff_forall_not_mem]
  intro w hw
  obtain ⟨j, hj, _, hjoining⟩ := hwf.staffed w hw
  have hdue := hsettled.due_job hj
  obtain ⟨number, a, stage, turn⟩ := j
  cases stage with
  | joining attempts run => cases hdue
  | _ => cases hjoining

theorem unturned_of_workers_nil {e : Engine P R} (h : e.unturned.workers = []) :
    e.workers = [] := by
  simpa [unturned] using h

/-- What is performed is a course to the end. -/
theorem perform_course {e : Engine P R} (hrest : e.AtRest)
    (assignments : List (Nat × Assignment P)) :
    ∃ done, Course (e.addJobs assignments).unturned done ∧ done.Settled ∧ done.WellFormed ∧
      (e.perform assignments).1.unturned = { done with jobs := [] } ∧
      (e.perform assignments).2 = done.jobs.map (·.ending?) := by
  have hwf := hrest.wellFormed assignments
  have hcourse := run_course (e.addJobs assignments)
  refine ⟨(e.addJobs assignments).run.unturned, hcourse, run_settled hwf,
    hcourse.wellFormed hwf, rfl, ?_⟩
  simp only [perform, unturned, List.map_map]
  rfl

theorem AtRest.perform {e : Engine P R} (hrest : e.AtRest)
    (assignments : List (Nat × Assignment P)) : (e.perform assignments).1.AtRest := by
  obtain ⟨done, _, hsettled, hwf, hdone, _⟩ := perform_course hrest assignments
  have hworkers := congrArg Engine.workers hdone
  have hexchanges := congrArg Engine.exchanges hdone
  have hnumber := congrArg Engine.nextNumber hdone
  change (e.perform assignments).1.exchanges = done.exchanges at hexchanges
  change (e.perform assignments).1.nextNumber = done.nextNumber at hnumber
  refine ⟨unturned_of_workers_nil (hworkers.trans (hsettled.workers hwf)), rfl, ?_⟩
  intro x hx
  rw [hexchanges] at hx
  rw [hnumber]
  exact hwf.past x hx

end Engine

end OrderAdmission
