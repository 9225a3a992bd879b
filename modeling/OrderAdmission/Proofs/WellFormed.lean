import Mathlib.Data.List.Nodup
import OrderAdmission.Gate
import OrderAdmission.Proofs.Courses
import OrderAdmission.Proofs.JobTurns

/-!
# Well-formed engines

In a well-formed engine no two workers or jobs share a number, numbers still to come are new, and new
to the journal too, every stage fits its job, and every worker belongs to a job that waits for it.

An engine at rest, where nothing is in progress, is well-formed, and stays so when jobs are added.
The main result is `Move.wellFormed`: **every move keeps an engine well-formed**.
-/
namespace OrderAdmission

variable {P R : Type}

/-! ### Exchanging one of several -/

theorem ne_key_of_nodup {α : Type} {key : α → Nat} {x : α} {before after : List α}
    (hdistinct : ((before ++ x :: after).map key).Nodup) :
    (∀ y ∈ before, key y ≠ key x) ∧ ∀ y ∈ after, key y ≠ key x := by
  rw [List.map_append, List.map_cons, List.nodup_append, List.nodup_cons] at hdistinct
  obtain ⟨_, ⟨hafter, _⟩, hbefore⟩ := hdistinct
  constructor
  · intro y hy
    exact hbefore (key y) (List.mem_map_of_mem hy) (key x) List.mem_cons_self
  · intro y hy hsame
    exact hafter (hsame ▸ List.mem_map_of_mem hy)

theorem place_of_nodup {α β : Type} {key : α → β} {xs : List α} (hdistinct : (xs.map key).Nodup)
    {i k : Nat} {x y : α} (hx : xs[i]? = some x) (hy : xs[k]? = some y) (hkey : key x = key y) :
    i = k := by
  have hi : (xs.map key)[i]? = some (key x) := by rw [List.getElem?_map, hx]; rfl
  have hk : (xs.map key)[k]? = some (key y) := by rw [List.getElem?_map, hy]; rfl
  have hlength : i < (xs.map key).length := (List.getElem?_eq_some_iff.mp hi).1
  exact (List.getElem?_inj hlength hdistinct).mp (by rw [hi, hk, hkey])

/-- An exchange by key then changes one item and nothing else. -/
theorem map_exchange {α : Type} (key : α → Nat) (f : α → α) {x : α} {xs : List α}
    (hdistinct : (xs.map key).Nodup) (hx : x ∈ xs) :
    ∃ before after, xs = before ++ x :: after ∧
      (xs.map fun y => if key y = key x then f y else y) = before ++ f x :: after := by
  obtain ⟨before, after, rfl⟩ := List.append_of_mem hx
  obtain ⟨hbefore, hafter⟩ := ne_key_of_nodup hdistinct
  have hsame (ys : List α) (hys : ∀ y ∈ ys, key y ≠ key x) :
      (ys.map fun y => if key y = key x then f y else y) = ys := by
    rw [List.map_congr_left (g := id), List.map_id]
    intro y hy
    exact if_neg (hys y hy)
  refine ⟨before, after, rfl, ?_⟩
  rw [List.map_append, List.map_cons, hsame before hbefore, hsame after hafter, if_pos rfl]

/-- To take off by key then takes one item off and nothing else. -/
theorem filter_others {α : Type} (key : α → Nat) {x : α} {xs : List α}
    (hdistinct : (xs.map key).Nodup) (hx : x ∈ xs) :
    ∃ before after, xs = before ++ x :: after ∧
      (xs.filter fun y => key y != key x) = before ++ after := by
  obtain ⟨before, after, rfl⟩ := List.append_of_mem hx
  obtain ⟨hbefore, hafter⟩ := ne_key_of_nodup hdistinct
  have hsame (ys : List α) (hys : ∀ y ∈ ys, key y ≠ key x) :
      (ys.filter fun y => key y != key x) = ys := by
    rw [List.filter_eq_self]
    intro y hy
    simpa using hys y hy
  refine ⟨before, after, rfl, ?_⟩
  rw [List.filter_append, List.filter_cons, hsame before hbefore, hsame after hafter]
  simp only [bne_self_eq_false, Bool.false_eq_true, ↓reduceIte]

namespace Engine

/-! ### What a turn of a worker leaves alone -/

/-- Two engines that differ at most in what a turn of a worker can change: the permits, the breaker,
the number of calls and the journal. -/
structure SameHouse (e e' : Engine P R) : Prop where
  desk : e'.desk = e.desk
  now : e'.now = e.now
  epoch : e'.epoch = e.epoch
  requests : e'.requests = e.requests
  cache : e'.cache = e.cache
  ledger : e'.ledger = e.ledger
  workers : e'.workers = e.workers
  jobs : e'.jobs = e.jobs
  nextNumber : e'.nextNumber = e.nextNumber
  bulkCalls : e'.bulkCalls = e.bulkCalls

theorem workerTurn_house (e : Engine P R) (w : Worker P R) : SameHouse e (e.workerTurn w).1 := by
  obtain ⟨number, job, position, index, payload, phase, turn⟩ := w
  cases phase with
  | fresh =>
    simp only [workerTurn]
    split <;> exact ⟨rfl, rfl, rfl, rfl, rfl, rfl, rfl, rfl, rfl, rfl⟩
  | queued limit =>
    simp only [workerTurn]
    split <;> exact ⟨rfl, rfl, rfl, rfl, rfl, rfl, rfl, rfl, rfl, rfl⟩
  | working call cutoff =>
    simp only [workerTurn]
    split <;> exact ⟨rfl, rfl, rfl, rfl, rfl, rfl, rfl, rfl, rfl, rfl⟩
  | reported permit outcome => exact ⟨rfl, rfl, rfl, rfl, rfl, rfl, rfl, rfl, rfl, rfl⟩
  | ended outcome => exact ⟨rfl, rfl, rfl, rfl, rfl, rfl, rfl, rfl, rfl, rfl⟩

/-! ### What a turn of a job leaves alone -/

/-- Two engines with the same settings, clock and jobs, the second with a cache that is faithful if
that of the first is. -/
structure SameJobs (e e' : Engine P R) : Prop where
  desk : e'.desk = e.desk
  now : e'.now = e.now
  jobs : e'.jobs = e.jobs
  faithful : e.cache.Faithful → e'.cache.Faithful

theorem SameJobs.trans {e₁ e₂ e₃ : Engine P R} (h₁ : SameJobs e₁ e₂) (h₂ : SameJobs e₂ e₃) :
    SameJobs e₁ e₃ :=
  ⟨h₂.desk.trans h₁.desk, h₂.now.trans h₁.now, h₂.jobs.trans h₁.jobs,
    fun h => h₂.faithful (h₁.faithful h)⟩

theorem SameFloor.sameJobs {e e' : Engine P R} (h : SameFloor e e') : SameJobs e e' :=
  ⟨h.desk, h.now, h.jobs, h.faithful⟩

theorem heard_sameJobs (e : Engine P R) (j : Job P R) : SameJobs e (e.heard j) :=
  ⟨heard_desk e j, heard_now e j, heard_jobs e j, heard_faithful e j⟩

theorem setLimiter_sameJobs (e : Engine P R) (limiter : Limiter) :
    SameJobs e (e.setLimiter limiter) :=
  ⟨rfl, rfl, rfl, id⟩

theorem setLedger_sameJobs (e : Engine P R) (ledger : Ledger) : SameJobs e (e.setLedger ledger) :=
  ⟨rfl, rfl, rfl, id⟩

theorem dismissAll_sameJobs (e : Engine P R) (job : Nat) : SameJobs e (e.dismissAll job) :=
  ⟨rfl, rfl, rfl, id⟩

theorem dismissAll_exchanges (e : Engine P R) (job : Nat) :
    (e.dismissAll job).exchanges = e.exchanges := by
  have hnone : (e.cutOffs (e.workersOf job)).filter (·.event.isExchange) = [] := by
    rw [List.filter_eq_nil_iff]
    intro x hx
    obtain ⟨w, _, rfl⟩ := List.mem_map.mp (List.mem_reverse.mp hx)
    exact Bool.false_ne_true
  simp only [exchanges, dismissAll, List.filter_append, hnone, List.nil_append]

theorem settled_floor (e : Engine P R) (job : Nat) (run : BatchRun P R) :
    SameFloor (e.dismissAll job) (e.settled job run).1 :=
  settleChunk_floor _ _ _ _ _

theorem settled_gone (e : Engine P R) (job : Nat) (run : BatchRun P R) :
    ∀ w ∈ (e.settled job run).1.workers, w.job ≠ job := by
  intro w hw
  rw [(settled_floor e job run).workers] at hw
  simpa using (List.mem_filter.mp hw).2

theorem settled_sameJobs (e : Engine P R) (job : Nat) (run : BatchRun P R) :
    SameJobs e (e.settled job run).1 :=
  (dismissAll_sameJobs e job).trans (settled_floor e job run).sameJobs

theorem keepPermit_floor (e : Engine P R) (stay : Option Nat) :
    SameFloor e (e.keepPermit stay).1 := by
  cases stay <;> exact SameFloor.refl e

theorem JobTurn.sameJobs {e : Engine P R} {j : Job P R} {result : Engine P R × Stage P R}
    (h : JobTurn e j result) : SameJobs e result.1 := by
  cases h with
  | leaves away work h => exact (heard_sameJobs e j).trans h.floor.sameJobs
  | writes source work h =>
    exact SameJobs.trans (setLedger_sameJobs e _) h.floor.sameJobs
  | opens away floor some valid work =>
    exact ((heard_sameJobs e j).trans floor.sameJobs).trans ⟨rfl, rfl, rfl, id⟩
  | resumes source => exact ⟨rfl, rfl, rfl, id⟩
  | collects source found => exact ⟨rfl, rfl, rfl, id⟩
  | pauses source none some => exact settled_sameJobs e _ _
  | reopens source none some => exact (settled_sameJobs e _ _).trans ⟨rfl, rfl, rfl, id⟩
  | finishes source none last =>
    exact (settled_sameJobs e _ _).trans (answered_floor _ _ _ _ _).sameJobs
  | takes source hold free =>
    exact (setLimiter_sameJobs e _).trans (keepPermit_floor (e.setLimiter _) _).sameJobs
  | queues source hold free => exact ⟨rfl, rfl, rfl, id⟩
  | claims source hold granted =>
    exact (setLimiter_sameJobs e _).trans (keepPermit_floor (e.setLimiter _) _).sameJobs
  | withdraws source hold => exact ⟨rfl, rfl, rfl, id⟩
  | releases source hold => exact ⟨rfl, rfl, rfl, id⟩

/-! ### What turns exchange with the service -/

/-- A turn of a worker exchanges something with the service on behalf of its own job, or nothing. -/
theorem workerTurn_exchanges (e : Engine P R) (w : Worker P R) :
    ∃ added, (e.workerTurn w).1.exchanges = added ++ e.exchanges ∧
      ∀ x ∈ added, x.event.job = w.job := by
  have hnothing {e' : Engine P R} (h : e'.exchanges = e.exchanges) :
      ∃ added, e'.exchanges = added ++ e.exchanges ∧ ∀ x ∈ added, x.event.job = w.job :=
    ⟨[], h, by simp⟩
  have hone {e' : Engine P R} {x : Entry P R} (h : e'.exchanges = x :: e.exchanges)
      (hjob : x.event.job = w.job) :
      ∃ added, e'.exchanges = added ++ e.exchanges ∧ ∀ x ∈ added, x.event.job = w.job :=
    ⟨[x], h, by simpa using hjob⟩
  obtain ⟨number, job, position, index, payload, phase, turn⟩ := w
  cases phase with
  | fresh =>
    simp only [workerTurn]
    split
    · exact hone rfl rfl
    · exact hnothing rfl
  | queued limit =>
    simp only [workerTurn]
    split
    · exact hone rfl rfl
    · exact hnothing rfl
  | working call cutoff =>
    simp only [workerTurn]
    split
    · exact hone rfl rfl
    · exact hone rfl rfl
    · exact hnothing rfl
    · exact hone rfl rfl
  | reported permit outcome => exact hnothing rfl
  | ended outcome => exact hnothing rfl

theorem heard_exchanges (e : Engine P R) (j : Job P R) :
    ∃ added, (e.heard j).exchanges = added ++ e.exchanges ∧
      ∀ x ∈ added, x.event.job = j.number := by
  unfold heard
  split
  · unfold heardBulk
    split
    · exact ⟨[], rfl, by simp⟩
    · exact ⟨[_], rfl, by simp [Event.job]⟩
    · exact ⟨[_], rfl, by simp [Event.job]⟩
  · exact ⟨[], rfl, by simp⟩

/-- Apart from what it has been waiting for, a turn of a job exchanges nothing with the service. -/
theorem JobTurn.exchanges {e : Engine P R} {j : Job P R} {result : Engine P R × Stage P R}
    (h : JobTurn e j result) : result.1.exchanges = (e.heard j).exchanges := by
  have hsettled (run : BatchRun P R) : (e.settled j.number run).1.exchanges = e.exchanges :=
    (settled_floor e j.number run).exchanges.trans (dismissAll_exchanges e j.number)
  cases h with
  | leaves away work h => exact h.floor.exchanges
  | writes source work h =>
    rw [heard, source]
    exact h.floor.exchanges
  | opens away floor some valid work => exact floor.exchanges
  | resumes source =>
    rw [heard, source]
    rfl
  | collects source found =>
    rw [heard, source]
    rfl
  | pauses source none some =>
    rw [heard, source]
    exact hsettled _
  | reopens source none some =>
    rw [heard, source]
    exact hsettled _
  | finishes source none last =>
    rw [heard, source, (answered_floor _ _ _ _ _).exchanges]
    exact hsettled _
  | takes source hold free =>
    rw [heard, source, (keepPermit_floor _ _).exchanges]
    rfl
  | queues source hold free =>
    rw [heard, source]
    rfl
  | claims source hold granted =>
    rw [heard, source, (keepPermit_floor _ _).exchanges]
    rfl
  | withdraws source hold =>
    rw [heard, source]
    rfl
  | releases source hold =>
    rw [heard, source]
    rfl

/-! ### Well-formed engines -/

def numbers (e : Engine P R) : List Nat := e.workers.map (·.number) ++ e.jobs.map (·.number)

/-- What holds of every engine that a run can reach. -/
structure WellFormed (e : Engine P R) : Prop where
  distinct : e.numbers.Nodup
  below : ∀ n ∈ e.numbers, n < e.nextNumber
  sound : ∀ j ∈ e.jobs, j.stage.Sound e.desk.fallback.retry.maxRetries j.assignment
  staffed : ∀ w ∈ e.workers, ∃ j ∈ e.jobs, j.number = w.job ∧ j.stage.isJoining = true
  past : ∀ x ∈ e.exchanges, x.event.job < e.nextNumber

namespace WellFormed

variable {e : Engine P R}

theorem workers_nodup (h : e.WellFormed) : (e.workers.map (·.number)).Nodup :=
  (List.nodup_append.mp h.distinct).1

theorem jobs_nodup (h : e.WellFormed) : (e.jobs.map (·.number)).Nodup :=
  (List.nodup_append.mp h.distinct).2.1

theorem job_below (h : e.WellFormed) {j : Job P R} (hj : j ∈ e.jobs) :
    j.number < e.nextNumber :=
  h.below _ (List.mem_append_right _ (List.mem_map_of_mem hj))

theorem job_unique (h : e.WellFormed) {j k : Job P R} (hj : j ∈ e.jobs) (hk : k ∈ e.jobs)
    (hnumber : j.number = k.number) : j = k :=
  List.inj_on_of_nodup_map h.jobs_nodup hj hk hnumber

theorem isJoining (h : e.WellFormed) {j : Job P R} (hj : j ∈ e.jobs) {w : Worker P R}
    (hw : w ∈ e.workers) (hjob : w.job = j.number) : j.stage.isJoining = true := by
  obtain ⟨k, hk, hnumber, hjoining⟩ := h.staffed w hw
  rwa [h.job_unique hj hk (hjob.symm.trans hnumber.symm)]

theorem no_workers (h : e.WellFormed) {j : Job P R} (hj : j ∈ e.jobs)
    (hnone : j.stage.isJoining = false) : ∀ w ∈ e.workers, w.job ≠ j.number := by
  intro w hw hjob
  rw [h.isJoining hj hw hjob] at hnone
  cases hnone

end WellFormed

/-! ### Turns change one of the workers or jobs -/

/-- A turn of a worker changes its phase and no other worker. -/
theorem serveWorker_workers {e : Engine P R} (hwf : e.WellFormed) {w : Worker P R}
    (hw : w ∈ e.workers) :
    ∃ before after, e.workers = before ++ w :: after ∧
      (e.serveWorker w).workers = before ++ { w with phase := (e.workerTurn w).2 } :: after := by
  obtain ⟨before, after, hold, hnew⟩ := map_exchange (·.number)
    (fun v : Worker P R => { v with phase := (e.workerTurn w).2 }) hwf.workers_nodup hw
  refine ⟨before, after, hold, ?_⟩
  simp only [serveWorker, (workerTurn_house e w).workers]
  exact hnew

/-- A turn of a job changes its stage and no other job. -/
theorem serveJob_jobs {e : Engine P R} (hwf : e.WellFormed) {j : Job P R} (hj : j ∈ e.jobs)
    (hready : j.isReady e = true) :
    ∃ before after, e.jobs = before ++ j :: after ∧
      (e.serveJob j).jobs = before ++ { j with stage := (e.jobTurn j).2 } :: after := by
  obtain ⟨before, after, hold, hnew⟩ := map_exchange (·.number)
    (fun k : Job P R => { k with stage := (e.jobTurn j).2 }) hwf.jobs_nodup hj
  refine ⟨before, after, hold, ?_⟩
  simp only [serveJob, (jobTurn_turn e j (hwf.sound j hj) hready).sameJobs.jobs]
  exact hnew

theorem mem_serveJob {e : Engine P R} (hwf : e.WellFormed) {j k : Job P R} (hj : j ∈ e.jobs)
    (hready : j.isReady e = true) (hk : k ∈ (e.serveJob j).jobs) :
    k = { j with stage := (e.jobTurn j).2 } ∨ (k ∈ e.jobs ∧ k.number ≠ j.number) := by
  obtain ⟨before, after, hold, hnew⟩ := serveJob_jobs hwf hj hready
  have hdistinct := hwf.jobs_nodup
  rw [hold] at hdistinct ⊢
  obtain ⟨hbefore, hafter⟩ := ne_key_of_nodup hdistinct
  rw [hnew, List.mem_append, List.mem_cons] at hk
  rcases hk with hk | rfl | hk
  · exact Or.inr ⟨List.mem_append_left _ hk, hbefore k hk⟩
  · exact Or.inl rfl
  · exact Or.inr ⟨List.mem_append_right _ (List.mem_cons_of_mem _ hk), hafter k hk⟩

theorem self_mem_serveJob {e : Engine P R} (hwf : e.WellFormed) {j : Job P R} (hj : j ∈ e.jobs)
    (hready : j.isReady e = true) : { j with stage := (e.jobTurn j).2 } ∈ (e.serveJob j).jobs := by
  obtain ⟨before, after, _, hnew⟩ := serveJob_jobs hwf hj hready
  rw [hnew]
  exact List.mem_append_right _ List.mem_cons_self

theorem other_mem_serveJob {e : Engine P R} (hwf : e.WellFormed) {j k : Job P R} (hj : j ∈ e.jobs)
    (hready : j.isReady e = true) (hk : k ∈ e.jobs) (hne : k.number ≠ j.number) :
    k ∈ (e.serveJob j).jobs := by
  obtain ⟨before, after, hold, hnew⟩ := serveJob_jobs hwf hj hready
  rw [hold, List.mem_append, List.mem_cons] at hk
  rw [hnew, List.mem_append, List.mem_cons]
  rcases hk with hk | rfl | hk
  · exact Or.inl hk
  · exact absurd rfl hne
  · exact Or.inr (Or.inr hk)

/-! ### Staff -/

theorem map_number_spawnWorkers (job : Nat) (tasks : List (BatchTask P)) (number position : Nat) :
    (spawnWorkers (R := R) job tasks number position).map (·.number) =
      List.range' number tasks.length := by
  induction tasks generalizing number position with
  | nil => rfl
  | cons t rest ih =>
    rw [List.length_cons, List.range'_succ]
    exact congrArg (number :: ·) (ih (number + 1) (position + 1))

theorem job_of_mem_spawnWorkers {job : Nat} {tasks : List (BatchTask P)} {number position : Nat}
    {w : Worker P R} (hw : w ∈ spawnWorkers job tasks number position) : w.job = job := by
  induction tasks generalizing number position with
  | nil => cases hw
  | cons t rest ih =>
    rcases List.mem_cons.mp hw with rfl | hrest
    · rfl
    · exact ih hrest

/-- After a turn of a job, workers are some of those before and the new ones for its next chunk, and
the job waits for those that are its own. -/
structure Staffing (e : Engine P R) (j : Job P R) (result : Engine P R × Stage P R)
    (kept : List (Worker P R)) (tasks : List (BatchTask P)) (position : Nat) : Prop where
  sublist : kept.Sublist e.workers
  workers : result.1.workers = kept ++ spawnWorkers j.number tasks e.nextNumber position
  nextNumber : result.1.nextNumber = e.nextNumber + tasks.length
  waits : tasks ≠ [] → result.2.isJoining = true
  stays : ∀ w ∈ kept, w.job = j.number → result.2.isJoining = true
  others : ∀ w ∈ e.workers, w.job ≠ j.number → w ∈ kept

theorem Staffing.of_floor {e : Engine P R} {j : Job P R} {result : Engine P R × Stage P R}
    (hwf : e.WellFormed) (hj : j ∈ e.jobs) (hnone : j.stage.isJoining = false)
    (hworkers : result.1.workers = e.workers) (hnumber : result.1.nextNumber = e.nextNumber) :
    Staffing e j result e.workers [] 0 := by
  refine ⟨List.Sublist.refl _, ?_, hnumber, by simp, ?_, fun w hw _ => hw⟩
  · rw [hworkers, spawnWorkers, List.append_nil]
  · exact fun w hw hjob => absurd hjob (hwf.no_workers hj hnone w hw)

theorem not_isJoining_of_isAway {stage : Stage P R} (h : stage.isAway = true) :
    stage.isJoining = false := by
  cases stage <;> first | rfl | cases h

theorem JobTurn.staffing {e : Engine P R} {j : Job P R} {result : Engine P R × Stage P R}
    (hwf : e.WellFormed) (hj : j ∈ e.jobs) (h : JobTurn e j result) :
    ∃ kept tasks position, Staffing e j result kept tasks position := by
  have hquiet {result : Engine P R × Stage P R} (hnone : j.stage.isJoining = false)
      (hworkers : result.1.workers = e.workers) (hnumber : result.1.nextNumber = e.nextNumber) :
      ∃ kept tasks position, Staffing e j result kept tasks position :=
    ⟨_, _, _, Staffing.of_floor hwf hj hnone hworkers hnumber⟩
  have hdismissed (run : BatchRun P R) :
      (e.settled j.number run).1.workers = e.workers.filter fun w => w.job != j.number :=
    (settled_floor e j.number run).workers
  have hothers : ∀ w ∈ e.workers.filter (fun w => w.job != j.number), w.job ≠ j.number := by
    simp
  have hstay : ∀ w ∈ e.workers, w.job ≠ j.number →
      w ∈ e.workers.filter (fun w => w.job != j.number) := by
    intro w hw hne
    exact List.mem_filter.mpr ⟨hw, by simpa using hne⟩
  cases h with
  | leaves away work h =>
    exact hquiet (not_isJoining_of_isAway away) (h.floor.workers.trans (heard_workers e j))
      (h.floor.nextNumber.trans (heard_nextNumber e j))
  | writes source work h =>
    exact hquiet (by rw [source]; rfl) h.floor.workers h.floor.nextNumber
  | @opens e' attempts away floor some valid work =>
    refine ⟨e.workers, j.assignment.tasks.take e'.chunkSize, 0, List.Sublist.refl _, ?_, ?_,
      fun _ => rfl, fun _ _ _ => rfl, fun w hw _ => hw⟩
    · simp only [openChunk, floor.workers, floor.nextNumber, BatchRun.whole, heard_workers,
        heard_nextNumber]
    · simp only [openChunk, floor.nextNumber, BatchRun.whole, heard_nextNumber]
  | @resumes attempts due run source =>
    exact ⟨e.workers, run.remaining.take e.chunkSize, run.position, List.Sublist.refl _, rfl, rfl,
      fun _ => rfl, fun _ _ _ => rfl, fun w hw _ => hw⟩
  | @collects attempts run w source found =>
    refine ⟨e.workers.filter fun v => v.number != w.number, [], 0, List.filter_sublist, ?_, rfl,
      by simp, fun _ _ _ => rfl, ?_⟩
    · rw [spawnWorkers, List.append_nil]
      rfl
    · intro v hv hne
      have hmem := List.mem_of_find?_eq_some found
      have hjob : w.job = j.number := by simpa using (List.mem_filter.mp hmem).2
      refine List.mem_filter.mpr ⟨hv, ?_⟩
      have hnumber : v.number ≠ w.number := by
        intro hsame
        have hvw := List.inj_on_of_nodup_map hwf.workers_nodup hv (List.mem_of_mem_filter hmem) hsame
        exact hne (hvw ▸ hjob)
      simpa using hnumber
  | @pauses attempts due run source none some =>
    refine ⟨_, [], 0, List.filter_sublist, ?_, (settled_floor e _ _).nextNumber, by simp,
      fun w hw hjob => absurd hjob (hothers w hw), hstay⟩
    rw [spawnWorkers, List.append_nil]
    exact hdismissed run
  | @reopens attempts run source none some =>
    refine ⟨_, run.remaining.take (e.settled j.number run).1.chunkSize, run.position,
      List.filter_sublist, ?_, ?_, fun _ => rfl, fun w hw hjob => absurd hjob (hothers w hw),
      hstay⟩
    · simp only [openChunk, hdismissed, (settled_floor e _ _).nextNumber]
      rfl
    · simp only [openChunk, (settled_floor e _ _).nextNumber]
      rfl
  | @finishes attempts run source none last =>
    have hanswered := answered_floor (e.settled j.number run).1 j.number j.assignment attempts
      { outcomes := (e.settled j.number run).2 }
    refine ⟨_, [], 0, List.filter_sublist, ?_,
      hanswered.nextNumber.trans (settled_floor e _ _).nextNumber, by simp,
      fun w hw hjob => absurd hjob (hothers w hw), hstay⟩
    rw [spawnWorkers, List.append_nil, hanswered.workers]
    exact hdismissed run
  | takes source hold free =>
    exact hquiet (by rw [source]; rfl) (keepPermit_floor _ _).workers
      (keepPermit_floor _ _).nextNumber
  | queues source hold free => exact hquiet (by rw [source]; rfl) rfl rfl
  | claims source hold granted =>
    exact hquiet (by rw [source]; rfl) (keepPermit_floor _ _).workers
      (keepPermit_floor _ _).nextNumber
  | withdraws source hold => exact hquiet (by rw [source]; rfl) rfl rfl
  | releases source hold => exact hquiet (by rw [source]; rfl) rfl rfl

/-! ### Stages stay sound -/

theorem length_settleChunk (e : Engine P R) (job : Nat) (reason : String) (chunk : List Nat)
    (outcomes : List (Outcome R)) :
    (e.settleChunk job reason chunk outcomes).2.length = outcomes.length := by
  induction chunk generalizing e outcomes with
  | nil => rfl
  | cons index rest ih =>
    simp only [settleChunk]
    split
    · rw [ih, List.length_set]
    · exact ih e outcomes

theorem length_noteOutcome (run : BatchRun P R) (index : Nat) (outcome : Option (Outcome R)) :
    (run.noteOutcome index outcome).outcomes.length = run.outcomes.length := by
  cases outcome with
  | none => rfl
  | some outcome => exact List.length_set

theorem keepPermit_sound (e : Engine P R) (maxRetries : Nat) (stay : Option Nat) :
    (e.keepPermit stay).2.Sound maxRetries (.hold stay) := by
  cases stay with
  | none => trivial
  | some stay => exact ⟨stay, rfl⟩

theorem JobTurn.sound {e : Engine P R} {j : Job P R} {result : Engine P R × Stage P R}
    (hsound : j.stage.Sound e.desk.fallback.retry.maxRetries j.assignment)
    (h : JobTurn e j result) :
    result.2.Sound e.desk.fallback.retry.maxRetries j.assignment := by
  cases h with
  | leaves away work h =>
    rw [← heard_desk e j]
    exact h.sound
  | writes source work h => exact h.sound
  | opens away floor some valid work => exact List.length_replicate
  | resumes source =>
    rw [source] at hsound
    exact hsound.1
  | collects source found =>
    rw [source] at hsound
    exact (length_noteOutcome _ _ _).trans hsound
  | pauses source none some =>
    rw [source] at hsound
    exact ⟨(length_settleChunk _ _ _ _ _).trans hsound, some⟩
  | reopens source none some =>
    rw [source] at hsound
    exact (length_settleChunk _ _ _ _ _).trans hsound
  | @finishes attempts run source none last =>
    rw [source] at hsound
    have hlength : (e.settled j.number run).2.length = j.assignment.tasks.length :=
      (length_settleChunk _ _ _ _ _).trans hsound
    have hleaves := answered_leaves (e.settled j.number run).1 j.number j.assignment attempts
      { outcomes := (e.settled j.number run).2 } (hlength ▸ j.assignment.length_tasks_le)
    have hdesk := (settled_sameJobs e j.number run).desk
    rw [← hdesk]
    exact hleaves.sound
  | takes source hold free =>
    rw [hold]
    exact keepPermit_sound _ _ _
  | queues source hold free => exact ⟨_, hold⟩
  | claims source hold granted =>
    rw [hold]
    exact keepPermit_sound _ _ _
  | withdraws source hold => trivial
  | releases source hold => trivial

/-! ### Moves keep engines well-formed -/

theorem serveWorker_wellFormed {e : Engine P R} (hwf : e.WellFormed) {w : Worker P R}
    (hw : w ∈ e.workers) : (e.serveWorker w).WellFormed := by
  obtain ⟨before, after, hold, hnew⟩ := serveWorker_workers hwf hw
  have hhouse := workerTurn_house e w
  have hjobs : (e.serveWorker w).jobs = e.jobs := hhouse.jobs
  have hnumbers : (e.serveWorker w).numbers = e.numbers := by
    simp only [numbers, hnew, hold, hjobs, List.map_append, List.map_cons]
  have hnext : (e.serveWorker w).nextNumber = e.nextNumber := hhouse.nextNumber
  refine ⟨?_, ?_, ?_, ?_, ?_⟩
  · rw [hnumbers]
    exact hwf.distinct
  · rw [hnumbers, hnext]
    exact hwf.below
  · simp only [serveWorker, hhouse.jobs, hhouse.desk]
    exact hwf.sound
  · intro v hv
    rw [hjobs]
    rw [hnew, List.mem_append, List.mem_cons] at hv
    rcases hv with hv | rfl | hv
    · exact hwf.staffed v (by rw [hold]; exact List.mem_append_left _ hv)
    · exact hwf.staffed w hw
    · exact hwf.staffed v (by
        rw [hold]
        exact List.mem_append_right _ (List.mem_cons_of_mem _ hv))
  · intro x hx
    obtain ⟨added, hadded, hown⟩ := workerTurn_exchanges e w
    have hexchanges : (e.serveWorker w).exchanges = added ++ e.exchanges := hadded
    rw [hnext]
    rw [hexchanges, List.mem_append] at hx
    rcases hx with hx | hx
    · obtain ⟨j, hj, hnumber, _⟩ := hwf.staffed w hw
      rw [hown x hx, ← hnumber]
      exact hwf.job_below hj
    · exact hwf.past x hx

section ServeJob

variable {e : Engine P R} {j : Job P R} {kept : List (Worker P R)} {tasks : List (BatchTask P)}
  {position : Nat}

/-- The new numbers come on top of those that are left. -/
theorem Staffing.numbers (hstaff : Staffing e j (e.jobTurn j) kept tasks position)
    (hwf : e.WellFormed) (hj : j ∈ e.jobs) (hready : j.isReady e = true) :
    (e.serveJob j).numbers.Perm ((kept.map (·.number) ++ e.jobs.map (·.number)) ++
      List.range' e.nextNumber tasks.length) := by
  obtain ⟨before, after, hold, hnew⟩ := serveJob_jobs hwf hj hready
  have hworkers : (e.serveJob j).workers =
      kept ++ spawnWorkers j.number tasks e.nextNumber position := hstaff.workers
  have hjobs : (e.serveJob j).jobs.map (·.number) = e.jobs.map (·.number) := by
    simp only [hnew, hold, List.map_append, List.map_cons]
  simp only [Engine.numbers, hworkers, hjobs, List.map_append, map_number_spawnWorkers,
    List.append_assoc]
  exact List.Perm.append_left _ List.perm_append_comm

theorem Staffing.left (hstaff : Staffing e j (e.jobTurn j) kept tasks position) :
    (kept.map (·.number) ++ e.jobs.map (·.number)).Sublist e.numbers :=
  List.Sublist.append (hstaff.sublist.map _) (List.Sublist.refl _)

theorem Staffing.distinct (hstaff : Staffing e j (e.jobTurn j) kept tasks position)
    (hwf : e.WellFormed) (hj : j ∈ e.jobs) (hready : j.isReady e = true) :
    (e.serveJob j).numbers.Nodup := by
  rw [(hstaff.numbers hwf hj hready).nodup_iff, List.nodup_append]
  refine ⟨hstaff.left.nodup hwf.distinct, List.nodup_range', ?_⟩
  intro n hn m hm hsame
  have hlow := hwf.below n (hstaff.left.subset hn)
  have hhigh := (List.mem_range'_1.mp hm).1
  omega

theorem Staffing.staffed (hstaff : Staffing e j (e.jobTurn j) kept tasks position)
    (hwf : e.WellFormed) (hj : j ∈ e.jobs) (hready : j.isReady e = true) :
    ∀ w ∈ (e.serveJob j).workers, ∃ k ∈ (e.serveJob j).jobs, k.number = w.job ∧
      k.stage.isJoining = true := by
  have hworkers : (e.serveJob j).workers =
      kept ++ spawnWorkers j.number tasks e.nextNumber position := hstaff.workers
  have hself := self_mem_serveJob hwf hj hready
  intro w hw
  rw [hworkers, List.mem_append] at hw
  rcases hw with hw | hw
  · obtain ⟨k, hk, hnumber, hjoining⟩ := hwf.staffed w (hstaff.sublist.subset hw)
    by_cases hown : w.job = j.number
    · exact ⟨_, hself, hown.symm, hstaff.stays w hw hown⟩
    · have hne : k.number ≠ j.number := fun hsame => hown (hnumber.symm.trans hsame)
      exact ⟨k, other_mem_serveJob hwf hj hready hk hne, hnumber, hjoining⟩
  · refine ⟨_, hself, (job_of_mem_spawnWorkers hw).symm, hstaff.waits ?_⟩
    rintro rfl
    cases hw

end ServeJob

theorem serveJob_wellFormed {e : Engine P R} (hwf : e.WellFormed) {j : Job P R} (hj : j ∈ e.jobs)
    (hready : j.isReady e = true) : (e.serveJob j).WellFormed := by
  have hturn := jobTurn_turn e j (hwf.sound j hj) hready
  obtain ⟨kept, tasks, position, hstaff⟩ := hturn.staffing hwf hj
  have hnext : (e.serveJob j).nextNumber = e.nextNumber + tasks.length := hstaff.nextNumber
  refine ⟨hstaff.distinct hwf hj hready, ?_, ?_, hstaff.staffed hwf hj hready, ?_⟩
  · intro n hn
    rw [hnext]
    rcases List.mem_append.mp ((hstaff.numbers hwf hj hready).mem_iff.mp hn) with hn | hn
    · exact Nat.lt_add_right _ (hwf.below n (hstaff.left.subset hn))
    · exact (List.mem_range'_1.mp hn).2
  · intro k hk
    have hdesk : (e.serveJob j).desk = e.desk := hturn.sameJobs.desk
    rw [hdesk]
    rcases mem_serveJob hwf hj hready hk with rfl | ⟨hk, _⟩
    · exact JobTurn.sound (j := j) (hwf.sound j hj) hturn
    · exact hwf.sound k hk
  · intro x hx
    obtain ⟨added, hadded, hown⟩ := heard_exchanges e j
    have hexchanges : (e.serveJob j).exchanges = added ++ e.exchanges :=
      hturn.exchanges.trans hadded
    rw [hnext]
    refine Nat.lt_add_right _ ?_
    rw [hexchanges, List.mem_append] at hx
    rcases hx with hx | hx
    · rw [hown x hx]
      exact hwf.job_below hj
    · exact hwf.past x hx

/-- **Every move keeps an engine well-formed.** -/
theorem Move.wellFormed {e e' : Engine P R} (hmove : Move e e') (hwf : e.WellFormed) :
    e'.WellFormed := by
  cases hmove with
  | worker member ready => exact serveWorker_wellFormed hwf member
  | job member ready => exact serveJob_wellFormed hwf member ready
  | tick quiet due => exact ⟨hwf.distinct, hwf.below, hwf.sound, hwf.staffed, hwf.past⟩

theorem Course.wellFormed {e e' : Engine P R} (hcourse : Course e e') (hwf : e.WellFormed) :
    e'.WellFormed :=
  hcourse.keeps Move.wellFormed hwf

theorem Course.carries {I : Engine P R → Prop}
    (hmove : ∀ {e e'}, Move e e' → e.WellFormed → I e → I e') {e e' : Engine P R}
    (hcourse : Course e e') (hwf : e.WellFormed) (h : I e) : I e' := by
  have hboth : e'.WellFormed ∧ I e' :=
    hcourse.keeps (I := fun e => e.WellFormed ∧ I e)
      (fun hnext hi => ⟨hnext.wellFormed hi.1, hmove hnext hi.1 hi.2⟩) ⟨hwf, h⟩
  exact hboth.2

/-! ### Who is there -/

/-- The numbers of the jobs with what they are asked to do. -/
def roster (e : Engine P R) : List (Nat × Assignment P) :=
  e.jobs.map fun j => (j.number, j.assignment)

theorem Move.roster {e e' : Engine P R} (hmove : Move e e') (hwf : e.WellFormed) :
    e'.roster = e.roster := by
  cases hmove with
  | @worker w member ready =>
    have hjobs : (e.serveWorker w).jobs = e.jobs := (workerTurn_house e w).jobs
    simp only [Engine.roster, hjobs]
  | @job j member ready =>
    obtain ⟨before, after, hold, hnew⟩ := serveJob_jobs hwf member ready
    simp only [Engine.roster, hold, hnew, List.map_append, List.map_cons]
  | tick quiet due => rfl

theorem Course.roster {e e' : Engine P R} (hcourse : Course e e') (hwf : e.WellFormed) :
    e'.roster = e.roster :=
  Course.carries (I := fun e₁ => e₁.roster = e.roster)
    (fun hmove hwf₁ hsame => (hmove.roster hwf₁).trans hsame) hcourse hwf rfl

theorem Move.faithful {e e' : Engine P R} (hmove : Move e e') (hwf : e.WellFormed)
    (h : e.cache.Faithful) : e'.cache.Faithful := by
  cases hmove with
  | @worker w member ready =>
    have hcache : (e.serveWorker w).cache = e.cache := (workerTurn_house e w).cache
    rw [hcache]
    exact h
  | @job j member ready =>
    exact (jobTurn_turn e j (hwf.sound j member) ready).sameJobs.faithful h
  | tick quiet due => exact h

theorem Course.faithful {e e' : Engine P R} (hcourse : Course e e') (hwf : e.WellFormed)
    (h : e.cache.Faithful) : e'.cache.Faithful :=
  Course.carries Move.faithful hcourse hwf h

theorem Move.desk {e e' : Engine P R} (hmove : Move e e') (hwf : e.WellFormed) :
    e'.desk = e.desk := by
  cases hmove with
  | @worker w member ready => exact (workerTurn_house e w).desk
  | @job j member ready => exact (jobTurn_turn e j (hwf.sound j member) ready).sameJobs.desk
  | tick quiet due => rfl

theorem Course.desk {e e' : Engine P R} (hcourse : Course e e') (hwf : e.WellFormed) :
    e'.desk = e.desk :=
  Course.carries (I := fun e₁ => e₁.desk = e.desk)
    (fun hmove hwf₁ hsame => (hmove.desk hwf₁).trans hsame) hcourse hwf rfl

/-! ### Engines at rest -/

/-- Nothing is in progress, and numbers still to come are new to the journal. -/
structure AtRest (e : Engine P R) : Prop where
  workers : e.workers = []
  jobs : e.jobs = []
  past : ∀ x ∈ e.exchanges, x.event.job < e.nextNumber

def begun (desk : Desk P R) (breaker : BreakerConfig) (overload : OverloadConfig)
    (pool : Option PoolHealth) (table : Table) (epoch : Int) : Engine P R :=
  { desk, now := 0, epoch
    breaker := .fresh breaker pool
    limiter := .full desk.executor.maxConcurrency desk.executor.permitTimeout
    detector := .fresh overload
    memory := .empty
    requests := .idle overload.maxConcurrentRequests
    cache := .empty StatusCache.defaultCapacity
    ledger := { table, holder := none, queue := [] }
    workers := [], jobs := [], nextNumber := 0, nextTurn := 0
    bulkCalls := 0, singleCalls := 0, journal := [], readings := 0 }

/-- Settings that do not ask for too many permits make such an engine. -/
theorem idle_eq (desk : Desk P R) (breaker : BreakerConfig) (overload : OverloadConfig)
    (pool : Option PoolHealth) (table : Table) (epoch : Int) :
    Engine.idle desk breaker overload pool table epoch =
      if desk.executor.maxConcurrency ≤ Limiter.maxCapacity then
        .ok (begun desk breaker overload pool table epoch)
      else .error .overflow := rfl

theorem begun_atRest (desk : Desk P R) (breaker : BreakerConfig) (overload : OverloadConfig)
    (pool : Option PoolHealth) (table : Table) (epoch : Int) :
    (begun desk breaker overload pool table epoch).AtRest :=
  ⟨rfl, rfl, fun _ hx => nomatch hx⟩

theorem begun_faithful (desk : Desk P R) (breaker : BreakerConfig) (overload : OverloadConfig)
    (pool : Option PoolHealth) (table : Table) (epoch : Int) :
    (begun desk breaker overload pool table epoch).cache.Faithful :=
  fun _ _ h => nomatch h

theorem ending?_eq_some {j : Job P R} {time : Nat} {ending : Ending R}
    (h : j.ending? = some (time, ending)) : j.stage = .finished time ending := by
  obtain ⟨number, a, stage, turn⟩ := j
  cases stage with
  | finished t ending' =>
    obtain ⟨rfl, rfl⟩ := Prod.mk.inj (Option.some.inj h)
    rfl
  | _ => cases h

theorem Move.mem_jobs {e e' : Engine P R} (hmove : Move e e') (hwf : e.WellFormed) {k : Job P R}
    (hk : k ∈ e'.jobs) :
    k ∈ e.jobs ∨ ∃ j ∈ e.jobs, j.isReady e = true ∧ k = { j with stage := (e.jobTurn j).2 } := by
  cases hmove with
  | @worker w member ready =>
    have hjobs : (e.serveWorker w).jobs = e.jobs := (workerTurn_house e w).jobs
    exact .inl (hjobs ▸ hk)
  | @job j member ready =>
    rcases mem_serveJob hwf member ready hk with hserved | ⟨hold, _⟩
    · exact .inr ⟨j, member, ready, hserved⟩
    · exact .inl hold
  | tick quiet due => exact .inl hk

/-- What is true of the stage of a job stays so if the turns of the job itself keep it. -/
theorem Move.own {e e' : Engine P R} (hmove : Move e e') (hwf : e.WellFormed) {number : Nat}
    {a : Assignment P} {I : Stage P R → Prop}
    (h : ∀ j ∈ e.jobs, j.number = number → j.assignment = a ∧ I j.stage)
    (hturn : ∀ j ∈ e.jobs, j.number = number → j.isReady e = true → I (e.jobTurn j).2) :
    ∀ j ∈ e'.jobs, j.number = number → j.assignment = a ∧ I j.stage := by
  intro k hk hnumber
  rcases hmove.mem_jobs hwf hk with hold | ⟨j, hj, hready, rfl⟩
  · exact h k hold hnumber
  · exact ⟨(h j hj hnumber).1, hturn j hj hnumber hready⟩

def newJob (number due : Nat) (assignment : Assignment P) : Job P R :=
  { number, assignment, stage := .arriving due, turn := none }

def newJobs (now : Nat) : Nat → List (Nat × Assignment P) → List (Job P R)
  | _, [] => []
  | number, (after, assignment) :: rest =>
    newJob number (now + after) assignment :: newJobs now (number + 1) rest

theorem addJobs_eq (e : Engine P R) (assignments : List (Nat × Assignment P)) :
    e.addJobs assignments =
      { e with
        jobs := e.jobs ++ newJobs e.now e.nextNumber assignments
        nextNumber := e.nextNumber + assignments.length } := by
  induction assignments generalizing e with
  | nil => simp only [addJobs, newJobs, List.append_nil, List.length_nil, Nat.add_zero]
  | cons first rest ih =>
    simp only [addJobs, ih, newJobs, List.append_assoc, List.singleton_append, List.length_cons]
    congr 1
    omega

theorem map_number_newJobs (now number : Nat) (assignments : List (Nat × Assignment P)) :
    (newJobs (R := R) now number assignments).map (·.number) =
      List.range' number assignments.length := by
  induction assignments generalizing number with
  | nil => rfl
  | cons first rest ih =>
    rw [List.length_cons, List.range'_succ]
    exact congrArg (number :: ·) (ih (number + 1))

theorem getElem?_newJobs (now number : Nat) (assignments : List (Nat × Assignment P)) (i : Nat) :
    (newJobs (R := R) now number assignments)[i]? =
      assignments[i]?.map fun x => newJob (number + i) (now + x.1) x.2 := by
  induction assignments generalizing number i with
  | nil => rfl
  | cons first rest ih =>
    cases i with
    | zero => rfl
    | succ i =>
      rw [newJobs, List.getElem?_cons_succ, List.getElem?_cons_succ, ih,
        show number + 1 + i = number + (i + 1) by omega]

theorem mem_newJobs {now number : Nat} {assignments : List (Nat × Assignment P)} {j : Job P R}
    (hj : j ∈ newJobs now number assignments) :
    j.turn = none ∧ ∃ due, j.stage = .arriving due := by
  induction assignments generalizing number with
  | nil => cases hj
  | cons first rest ih =>
    rcases List.mem_cons.mp hj with rfl | hrest
    · exact ⟨rfl, _, rfl⟩
    · exact ih hrest

theorem AtRest.wellFormed {e : Engine P R} (hrest : e.AtRest)
    (assignments : List (Nat × Assignment P)) : (e.addJobs assignments).unturned.WellFormed := by
  have hnumbers : (e.addJobs assignments).unturned.numbers =
      List.range' e.nextNumber assignments.length := by
    rw [addJobs_eq, ← map_number_newJobs (R := R) e.now]
    simp only [numbers, unturned, hrest.workers, hrest.jobs, List.map_nil, List.nil_append,
      List.map_map]
    rfl
  refine ⟨?_, ?_, ?_, ?_, ?_⟩
  · rw [hnumbers]
    exact List.nodup_range'
  · intro n hn
    rw [hnumbers] at hn
    rw [addJobs_eq]
    exact (List.mem_range'_1.mp hn).2
  · intro j hj
    obtain ⟨k, hk, rfl⟩ := List.mem_map.mp hj
    rw [addJobs_eq, hrest.jobs] at hk
    obtain ⟨_, due, hstage⟩ := mem_newJobs hk
    simp only [Job.unturned, hstage]
    trivial
  · intro w hw
    rw [addJobs_eq] at hw
    simp [unturned, hrest.workers] at hw
  · intro x hx
    rw [addJobs_eq] at hx ⊢
    exact Nat.lt_add_right _ (hrest.past x hx)

/-- The jobs of a course are numbered in order, and asked for what was assigned. -/
theorem AtRest.roster {e e' : Engine P R} (hrest : e.AtRest)
    {assignments : List (Nat × Assignment P)}
    (hcourse : Course (e.addJobs assignments).unturned e') (i : Nat) :
    e'.jobs[i]?.map (fun j => (j.number, j.assignment)) =
      assignments[i]?.map fun x => (e.nextNumber + i, x.2) := by
  have hroster := Course.roster hcourse (hrest.wellFormed assignments)
  have hplace := congrArg (·[i]?) hroster
  simp only [Engine.roster, List.getElem?_map] at hplace
  refine hplace.trans ?_
  rw [addJobs_eq]
  simp only [unturned, hrest.jobs, List.nil_append, List.getElem?_map, getElem?_newJobs, Option.map_map]
  rfl

/-- A new job is due after its wait. -/
theorem AtRest.newcomer {e : Engine P R} (hrest : e.AtRest) {assignments : List (Nat × Assignment P)}
    {i wait : Nat} {a : Assignment P} (hassigned : assignments[i]? = some (wait, a)) {j : Job P R}
    (hj : j ∈ (e.addJobs assignments).unturned.jobs) (hnumber : j.number = e.nextNumber + i) :
    j = newJob (e.nextNumber + i) (e.now + wait) a := by
  have hnew : (e.addJobs assignments).unturned.jobs[i]? =
      some (newJob (e.nextNumber + i) (e.now + wait) a) := by
    rw [addJobs_eq]
    simp only [unturned, hrest.jobs, List.nil_append, List.getElem?_map, getElem?_newJobs, hassigned]
    rfl
  exact (hrest.wellFormed assignments).job_unique hj (List.mem_of_getElem? hnew) hnumber

/-- The job of a course in the place of an assignment. -/
theorem AtRest.exists_job {e e' : Engine P R} (hrest : e.AtRest)
    {assignments : List (Nat × Assignment P)}
    (hcourse : Course (e.addJobs assignments).unturned e') {i wait : Nat} {a : Assignment P}
    (hassigned : assignments[i]? = some (wait, a)) :
    ∃ j, e'.jobs[i]? = some j ∧ j.number = e.nextNumber + i ∧ j.assignment = a := by
  have hplace := hrest.roster hcourse i
  rw [hassigned, Option.map_some, Option.map_eq_some_iff] at hplace
  obtain ⟨j, hj, hsame⟩ := hplace
  exact ⟨j, hj, congrArg Prod.fst hsame, congrArg Prod.snd hsame⟩

/-- The assignment in the place of a job of a course. -/
theorem AtRest.exists_assignment {e e' : Engine P R} (hrest : e.AtRest)
    {assignments : List (Nat × Assignment P)}
    (hcourse : Course (e.addJobs assignments).unturned e') {j : Job P R} (hj : j ∈ e'.jobs) :
    ∃ i wait, e'.jobs[i]? = some j ∧ assignments[i]? = some (wait, j.assignment) ∧
      j.number = e.nextNumber + i := by
  obtain ⟨i, hi⟩ := List.getElem?_of_mem hj
  have hplace := hrest.roster hcourse i
  rw [hi, Option.map_some, eq_comm, Option.map_eq_some_iff] at hplace
  obtain ⟨⟨wait, a⟩, hassigned, hsame⟩ := hplace
  have hnumber : e.nextNumber + i = j.number := congrArg Prod.fst hsame
  obtain rfl : a = j.assignment := congrArg Prod.snd hsame
  exact ⟨i, wait, hi, hassigned, hnumber.symm⟩

/-- The ending of a job stands in the place of its assignment. -/
theorem AtRest.getElem?_endings {e e' : Engine P R} (hrest : e.AtRest)
    {assignments : List (Nat × Assignment P)}
    (hcourse : Course (e.addJobs assignments).unturned e') {j : Job P R} (hj : j ∈ e'.jobs)
    {i : Nat} (hnumber : j.number = e.nextNumber + i) :
    (e'.jobs.map (·.ending?))[i]? = some j.ending? := by
  obtain ⟨k, _, hk, _, hnumber'⟩ := hrest.exists_assignment hcourse hj
  obtain rfl : k = i := by omega
  rw [List.getElem?_map, hk, Option.map_some]

/-- Each job of a course is asked for something that was assigned. -/
theorem AtRest.assigned {e e' : Engine P R} (hrest : e.AtRest)
    {assignments : List (Nat × Assignment P)}
    (hcourse : Course (e.addJobs assignments).unturned e') {j : Job P R} (hj : j ∈ e'.jobs) :
    ∃ x ∈ assignments, x.2 = j.assignment := by
  obtain ⟨_, _, _, hassigned, _⟩ := hrest.exists_assignment hcourse hj
  exact ⟨_, List.mem_of_getElem? hassigned, rfl⟩

end Engine

end OrderAdmission
