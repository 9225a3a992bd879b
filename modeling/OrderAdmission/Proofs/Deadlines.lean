import OrderAdmission.Proofs.Blocks
import OrderAdmission.Proofs.Fairness
import OrderAdmission.Proofs.Fallback

/-!
# The deadline of a chunk

A chunk has as long as a task may wait for its permit and, after that, may run. Each of its tasks has these
two bounds of its own, so that the deadline should never matter: whoever gets a permit gets it within the
first bound and is through within the second (`WithinBounds`).

But at the deadline itself there may be two who can go on, the job that closes the chunk and a task whose
own bound ends at this very instant, and nothing says who is served first. **A chunk is cut off only in such a
tie**: if tasks may not run at all, or if a task of the chunk got its permit at the last instant at which it
could (`AtWorkSince.tie`). In every other chunk no outcome says that the chunk was cut off, and an outcome
that does so belongs to a task of a chunk that was (`Deserved`).
-/
namespace OrderAdmission

variable {P R : Type}

/-! ### What a task says of itself -/

/-- A text with a letter that is not in the words for a chunk that was cut off says something else. -/
theorem ne_chunkTimeoutReason {text : String} {letter : Char} (hmem : letter ∈ text.toList)
    (hnot : letter ∉ chunkTimeoutReason.toList) : text ≠ chunkTimeoutReason := by
  intro hsame
  rw [hsame] at hmem
  exact hnot hmem

theorem DownstreamFailure.text_ne_chunkTimeout (f : DownstreamFailure) : f.text ≠ chunkTimeoutReason := by
  have hwords (s : String) : toString s = s := rfl
  have hcolon : ':' ∈ f.text.toList := by
    unfold text
    split <;> simp [hwords, String.toList_append]
  exact ne_chunkTimeoutReason hcolon (by decide)

theorem taskTimeoutReason_ne (limit : Nat) : taskTimeoutReason limit ≠ chunkTimeoutReason := by
  have hletter : 'a' ∈ (taskTimeoutReason limit).toList := by
    unfold taskTimeoutReason
    rw [String.toList_append, String.toList_append]
    exact List.mem_append_left _ (List.mem_append_left _ (by decide))
  exact ne_chunkTimeoutReason hletter (by decide)

def Stage.batch? : Stage P R → Option (BatchRun P R)
  | .joining _ run | .pausing _ run _ => some run
  | _ => none

theorem Stage.batch?_of_isAway {stage : Stage P R} (h : stage.isAway = true) : stage.batch? = none := by
  cases stage with
  | joining | pausing => cases h
  | _ => rfl

namespace Engine

/-! ### The bounds of a task -/

/-- A task of a chunk that began at an instant keeps to its own bounds: it begins at once, waits for its
permit no longer than it may, and is at work no longer than it may. What it ends with does not say that
its chunk was cut off. -/
inductive WithinBounds (e : Engine P R) (begun : Nat) (w : Worker P R) : WorkerPhase R → Prop where
  | fresh (atOnce : e.now = begun) : WithinBounds e begun w .fresh
  | queued (since : begun ≤ e.now) (timely : e.now ≤ begun + e.desk.executor.permitTimeout) :
      WithinBounds e begun w (.queued (begun + e.desk.executor.permitTimeout))
  | working {start : Nat} {conduct : Conduct (Except DownstreamFailure R)}
      (began : e.Began w.job w.position w.payload start conduct) (since : begun ≤ start)
      (granted : start ≤ begun + e.desk.executor.permitTimeout)
      (timely : e.now ≤ earlier (conduct.since start).due? (start + e.desk.executor.taskTimeout)) :
      WithinBounds e begun w (.working (conduct.since start) (start + e.desk.executor.taskTimeout))
  | refused {outcome : Outcome R} (timely : e.now ≤ begun + e.desk.executor.permitTimeout)
      (own : outcome ≠ .failure chunkTimeoutReason) :
      WithinBounds e begun w (.reported false outcome)
  | returned {start : Nat} {conduct : Conduct (Except DownstreamFailure R)} {outcome : Outcome R}
      (began : e.Began w.job w.position w.payload start conduct)
      (granted : start ≤ begun + e.desk.executor.permitTimeout)
      (timely : e.now ≤ start + e.desk.executor.taskTimeout)
      (own : outcome ≠ .failure chunkTimeoutReason) :
      WithinBounds e begun w (.reported true outcome)
  | ended {outcome : Option (Outcome R)} (own : outcome ≠ some (.failure chunkTimeoutReason)) :
      WithinBounds e begun w (.ended outcome)

section Bounds

variable {e e' : Engine P R} {begun : Nat} {w : Worker P R}

theorem WithinBounds.mono {phase : WorkerPhase R} (h : WithinBounds e begun w phase)
    (hgrown : Grown e e') (hnow : e'.now = e.now) : WithinBounds e' begun w phase := by
  cases h with
  | fresh atOnce => exact .fresh (hnow.trans atOnce)
  | queued since timely =>
    rw [← hgrown.desk] at timely ⊢
    rw [← hnow] at since timely
    exact .queued since timely
  | working began since granted timely =>
    have hbegan := began.mono hgrown
    rw [← hgrown.desk] at granted timely ⊢
    rw [← hnow] at timely
    exact .working hbegan since granted timely
  | refused timely own =>
    rw [← hgrown.desk, ← hnow] at timely
    exact .refused timely own
  | returned began granted timely own =>
    have hbegan := began.mono hgrown
    rw [← hgrown.desk] at granted timely
    rw [← hnow] at timely
    exact .returned hbegan granted timely own
  | ended own => exact .ended own

theorem WithinBounds.withPhase {phase : WorkerPhase R} (h : WithinBounds e begun w phase)
    (other : WorkerPhase R) : WithinBounds e begun { w with phase := other } phase := by
  cases h with
  | fresh atOnce => exact .fresh atOnce
  | queued since timely => exact .queued since timely
  | working began since granted timely => exact .working began since granted timely
  | refused timely own => exact .refused timely own
  | returned began granted timely own => exact .returned began granted timely own
  | ended own => exact .ended own

theorem WithinBounds.tick (h : WithinBounds e begun w w.phase) {time : Nat} (hlater : e.now ≤ time)
    (hidle : w.isReady e.limiter e.now = false) (hdue : ∀ t, w.due? = some t → time ≤ t) :
    WithinBounds { e with now := time } begun w w.phase := by
  obtain ⟨number, job, position, index, payload, phase, turn⟩ := w
  cases h with
  | fresh | refused | returned => cases hidle
  | queued since timely => exact .queued (Nat.le_trans since hlater) (hdue _ rfl)
  | working began since granted timely => exact .working began since granted (hdue _ rfl)
  | ended own => exact .ended own

theorem startCall_within (w : Worker P R) (hsince : begun ≤ e.now)
    (hgranted : e.now ≤ begun + e.desk.executor.permitTimeout) :
    WithinBounds (e.startCall w).1 begun w (e.startCall w).2 := by
  have hbegan : (e.startCall w).1.Began w.job w.position w.payload e.now
      (e.desk.single e.singleCalls w.payload) :=
    ⟨⟨e.limiter.inFlight, List.mem_cons_self⟩, e.singleCalls, rfl⟩
  exact .working hbegan hsince hgranted (Conduct.le_due (Nat.le_add_right _ _))

/-- A task whose call is over in time. -/
theorem endCall_within {start : Nat} {conduct : Conduct (Except DownstreamFailure R)}
    (w : Worker P R) (answer : Option (Except DownstreamFailure R)) {outcome : Outcome R} (r : Report)
    (hbegan : e.Began w.job w.position w.payload start conduct)
    (hgranted : start ≤ begun + e.desk.executor.permitTimeout)
    (htimely : e.now ≤ start + e.desk.executor.taskTimeout)
    (hown : outcome ≠ .failure chunkTimeoutReason) :
    WithinBounds (e.endCall w answer outcome r).1 begun w (e.endCall w answer outcome r).2 :=
  .returned (hbegan.mono (endCall_grown e w answer outcome r)) hgranted htimely hown

/-- **A turn of a task keeps it within its bounds.** -/
theorem WithinBounds.turn (h : WithinBounds e begun w w.phase)
    (hpatience : e.limiter.patience = e.desk.executor.permitTimeout)
    (hready : w.isReady e.limiter e.now = true) :
    WithinBounds (e.workerTurn w).1 begun w (e.workerTurn w).2 := by
  obtain ⟨number, job, position, index, payload, phase, turn⟩ := w
  cases h with
  | fresh atOnce =>
    subst atOnce
    have hnone : e.now ≤ e.now + e.desk.executor.permitTimeout := Nat.le_add_right _ _
    simp only [workerTurn]
    split
    · next limiter _ => exact startCall_within (e := e.setLimiter limiter) _ (Nat.le_refl _) hnone
    · rw [hpatience]
      exact .queued (Nat.le_refl _) hnone
  | queued since timely =>
    simp only [workerTurn]
    split
    · exact startCall_within (e := e.setLimiter (e.limiter.claim number)) _ since timely
    · have hown : permitTimeoutReason ≠ chunkTimeoutReason := by decide
      exact .refused timely fun hsame => hown (Outcome.failure.inj hsame)
  | @working start conduct began since granted timely =>
    have hwithin := Nat.le_trans timely (earlier_le _ _)
    simp only [workerTurn]
    split
    · refine endCall_within _ _ _ began granted hwithin ?_
      intro hsame
      cases hsame
    · next failure _ =>
      exact endCall_within _ _ _ began granted hwithin fun hsame =>
        failure.text_ne_chunkTimeout (Outcome.failure.inj hsame)
    · refine .ended ?_
      intro hsame
      cases hsame
    · exact endCall_within _ _ _ began granted hwithin fun hsame =>
        taskTimeoutReason_ne e.desk.executor.taskTimeout (Outcome.failure.inj hsame)
  | refused timely own | returned began granted timely own =>
    exact .ended fun hsame => own (Option.some.inj hsame)
  | ended own => cases hready

end Bounds

/-! ### What a turn does to a chunk -/

/-- A turn in which a chunk begins, with the tasks that have these indices. -/
def OpensChunk (chunk : List Nat) (begun : Nat) (e : Engine P R) (j : Job P R) : Prop :=
  e.now = begun ∧ ∃ (e' : Engine P R) (attempts : Nat) (run : BatchRun P R),
    e.jobTurn j = e'.openChunk j.number attempts run ∧
      (run.remaining.take e'.chunkSize).map (·.index) = chunk

/-- A turn that closes a chunk before all of its tasks have ended; this index is one of theirs. -/
def CutsOff (index : Nat) (e : Engine P R) (j : Job P R) : Prop :=
  ∃ attempts run, j.stage = .joining attempts run ∧ index ∈ run.chunk ∧
    (e.workersOf j.number).find? (·.hasEnded) = none ∧ e.workersOf j.number ≠ []

/-- The outcomes that a job goes on with after a turn that begins a chunk or a pause. -/
inductive HandsOn (e : Engine P R) (j : Job P R) : List (Outcome R) → Prop where
  | whole (n : Nat) : HandsOn e j (List.replicate n .pending)
  | paused {attempts due : Nat} {run : BatchRun P R} (source : j.stage = .pausing attempts run due) :
      HandsOn e j run.outcomes
  | closed {attempts : Nat} {run : BatchRun P R} (source : j.stage = .joining attempts run)
      (none : (e.workersOf j.number).find? (·.hasEnded) = none) :
      HandsOn e j (e.settled j.number run).2

/-- What a turn does to the batch that a job is at work on. -/
inductive ChunkTurn (e : Engine P R) (j : Job P R) : Engine P R × Stage P R → Prop where
  /-- There is none afterwards. -/
  | away {result : Engine P R × Stage P R} (none : result.2.batch? = none) : ChunkTurn e j result
  /-- A chunk begins. -/
  | opens {e' : Engine P R} {attempts : Nat} {run : BatchRun P R} (desk : e'.desk = e.desk)
      (now : e'.now = e.now) (clear : ∀ w ∈ e'.workers, w.job ≠ j.number)
      (outcomes : HandsOn e j run.outcomes) :
      ChunkTurn e j (e'.openChunk j.number attempts run)
  /-- The outcome of a task is noted. -/
  | collects {attempts : Nat} {run : BatchRun P R} {w : Worker P R}
      (source : j.stage = .joining attempts run)
      (found : (e.workersOf j.number).find? (·.hasEnded) = some w) :
      ChunkTurn e j (e.collect w, .joining attempts (run.noteOutcome w.index w.outcome?))
  /-- A pause begins. -/
  | pauses {e' : Engine P R} {attempts due : Nat} {run : BatchRun P R}
      (outcomes : HandsOn e j run.outcomes) : ChunkTurn e j (e', .pausing attempts run due)

theorem answered_batch? (e : Engine P R) (job : Nat) (a : Assignment P) (attempts : Nat)
    (result : BatchResult R) : (e.answered job a attempts result).2.batch? = none := by
  unfold answered
  split
  · exact Stage.batch?_of_isAway (placeOrders_leaves e job _ result).away
  · rw [conclude_eq]
    rfl
  · rw [conclude_eq]
    rfl

theorem keepPermit_batch? (e : Engine P R) (stay : Option Nat) :
    (e.keepPermit stay).2.batch? = none := by
  cases stay <;> rfl

/-- **Every turn of a job does one of these things to its batch.** -/
theorem JobTurn.chunkTurn {e : Engine P R} {j : Job P R} {result : Engine P R × Stage P R}
    (hwf : e.WellFormed) (hj : j ∈ e.jobs) (h : JobTurn e j result) : ChunkTurn e j result := by
  have hclear (run : BatchRun P R) : ∀ w ∈ (e.settled j.number run).1.workers, w.job ≠ j.number := by
    rw [show (e.settled j.number run).1.workers = _ from (settled_floor e j.number run).workers]
    intro w hw
    simpa [dismissAll] using (List.mem_filter.mp hw).2
  cases h with
  | leaves away work h => exact .away (Stage.batch?_of_isAway h.away)
  | writes source work h => exact .away (Stage.batch?_of_isAway h.away)
  | opens away floor some valid work =>
    refine .opens (floor.desk.trans (heard_desk e j)) (floor.now.trans (heard_now e j)) ?_ (.whole _)
    rw [floor.workers, heard_workers]
    exact hwf.no_workers hj (not_isJoining_of_isAway away)
  | resumes source =>
    exact .opens rfl rfl (hwf.no_workers hj (by rw [source]; rfl)) (.paused source)
  | collects source found => exact .collects source found
  | pauses source none some => exact .pauses (.closed source none)
  | @reopens attempts run source none some =>
    have hsame := settled_sameJobs e j.number run
    exact .opens hsame.desk hsame.now (hclear run) (.closed source none)
  | finishes source none last => exact .away (answered_batch? _ _ _ _ _)
  | takes source hold free => exact .away (keepPermit_batch? _ _)
  | queues source hold free => exact .away rfl
  | claims source hold granted => exact .away (keepPermit_batch? _ _)
  | withdraws source hold => exact .away rfl
  | releases source hold => exact .away rfl

/-! ### Who says that a chunk was cut off -/

/-- Whoever has the outcome of a chunk that was cut off was in such a chunk. -/
def Deserved (start e : Engine P R) (job : Nat) (outcomes : List (Outcome R)) : Prop :=
  ∀ index, outcomes[index]? = some (.failure chunkTimeoutReason) → Took start e job (CutsOff index)

section Deserved

variable {start e : Engine P R}

theorem Deserved.mono {e' : Engine P R} {job : Nat} {outcomes : List (Outcome R)}
    (h : Deserved start e job outcomes) (hcourse : Course e e') : Deserved start e' job outcomes :=
  fun index hindex => (h index hindex).mono hcourse

theorem Deserved.noteOutcome {job : Nat} {run : BatchRun P R} (h : Deserved start e job run.outcomes)
    (place : Nat) {outcome : Option (Outcome R)} (hown : outcome ≠ some (.failure chunkTimeoutReason)) :
    Deserved start e job (run.noteOutcome place outcome).outcomes := by
  cases outcome with
  | none => exact h
  | some outcome =>
    intro index hindex
    simp only [BatchRun.noteOutcome, List.getElem?_set] at hindex
    split at hindex
    · split at hindex
      · exact absurd hindex hown
      · cases hindex
    · exact h index hindex

/-- **What is handed on is deserved**, if what was there before is. -/
theorem Deserved.handsOn (hcourse : Course start e) {j : Job P R} (hj : j ∈ e.jobs)
    (hready : j.isReady e = true)
    (h : ∀ run, j.stage.batch? = some run → Deserved start e j.number run.outcomes)
    {outcomes : List (Outcome R)} (hhands : HandsOn e j outcomes) :
    Deserved start (e.serveJob j) j.number outcomes := by
  have hmove : Course e (e.serveJob j) := .single (.job hj hready)
  cases hhands with
  | whole n =>
    intro index hindex
    cases List.eq_of_mem_replicate (List.mem_of_getElem? hindex)
  | paused source => exact (h _ (by rw [source]; rfl)).mono hmove
  | @closed attempts run source none =>
    have hbefore := h run (by rw [source]; rfl)
    intro index hindex
    rw [settled, getElem?_settleChunk] at hindex
    split at hindex
    · next hopen =>
      -- its place was open, so it has the reason for which the chunk was closed
      have hreason : e.closingReason j.number = chunkTimeoutReason :=
        Outcome.failure.inj (Option.some.inj hindex)
      have hsome : e.workersOf j.number ≠ [] := by
        intro hempty
        rw [closingReason, hempty, List.isEmpty_nil, if_pos rfl] at hreason
        exact absurd hreason (by decide)
      exact ⟨e, j, hcourse, hj, rfl, hready, ⟨attempts, run, source, hopen.1, none, hsome⟩, .refl⟩
    · exact (hbefore index hindex).mono hmove

end Deserved

/-! ### Chunks at work -/

/-- A chunk that began at an instant and is at work: its deadline is as far away as a wait for a permit and
a run together, it has not passed, and the tasks that are still there are within their bounds. -/
structure AtWorkSince (start e : Engine P R) (job : Nat) (run : BatchRun P R) (begun : Nat) : Prop where
  opened : Took start e job (OpensChunk run.chunk begun)
  deadline : run.deadline = begun + e.desk.executor.chunkTimeout
  timely : e.now ≤ run.deadline
  tasks : ∀ w ∈ e.workers, w.job = job → w.index ∈ run.chunk ∧ WithinBounds e begun w w.phase

/-- Every batch at work keeps to the bounds of its tasks. -/
structure KeepsBounds (start e : Engine P R) : Prop where
  course : Course start e
  regular : e.Regular
  patience : e.limiter.patience = e.desk.executor.permitTimeout
  chunks : ∀ j ∈ e.jobs, ∀ attempts run, j.stage = .joining attempts run →
    ∃ begun, AtWorkSince start e j.number run begun
  deserved : ∀ j ∈ e.jobs, ∀ run, j.stage.batch? = some run → Deserved start e j.number run.outcomes

section Chunks

variable {start e e' : Engine P R} {job begun : Nat} {run : BatchRun P R}

/-- What others do leaves a chunk as it is. -/
theorem AtWorkSince.frame (h : AtWorkSince start e job run begun) (hcourse : Course e e')
    (hgrown : Grown e e') (hnow : e'.now = e.now)
    (hworkers : ∀ w ∈ e'.workers, w.job = job → w ∈ e.workers) :
    AtWorkSince start e' job run begun := by
  refine ⟨h.opened.mono hcourse, ?_, ?_, ?_⟩
  · rw [hgrown.desk]
    exact h.deadline
  · rw [hnow]
    exact h.timely
  · intro w hw hjob
    obtain ⟨hmember, hbounds⟩ := h.tasks w (hworkers w hw hjob) hjob
    exact ⟨hmember, hbounds.mono hgrown hnow⟩

theorem AtWorkSince.outcome?_ne (h : AtWorkSince start e job run begun) {w : Worker P R}
    (hw : w ∈ e.workers) (hjob : w.job = job) :
    w.outcome? ≠ some (.failure chunkTimeoutReason) := by
  have hbounds := (h.tasks w hw hjob).2
  unfold Worker.outcome?
  generalize w.phase = phase at hbounds
  cases hbounds with
  | ended own => exact own
  | fresh | queued | working | refused | returned =>
    intro hsame
    cases hsame

/-- The tasks of a chunk that begins are all new. -/
theorem AtWorkSince.opens {j : Job P R} {attempts : Nat} {before : Engine P R}
    (hcourse : Course start e) (hj : j ∈ e.jobs) (hready : j.isReady e = true)
    (hturn : e.jobTurn j = before.openChunk j.number attempts run) (hdesk : before.desk = e.desk)
    (hnow : before.now = e.now) (hclear : ∀ w ∈ before.workers, w.job ≠ j.number) :
    ∃ run', (e.jobTurn j).2 = .joining attempts run' ∧ run'.outcomes = run.outcomes ∧
      AtWorkSince start (e.serveJob j) j.number run' e.now := by
  rw [show (e.jobTurn j).2 = _ from congrArg Prod.snd hturn]
  have hserved : (e.serveJob j).now = e.now ∧ (e.serveJob j).desk = e.desk ∧
      (e.serveJob j).workers = before.workers ++
        spawnWorkers j.number (run.remaining.take before.chunkSize) before.nextNumber run.position := by
    simp only [serveJob, hturn]
    exact ⟨hnow, hdesk, rfl⟩
  obtain ⟨hnow', hdesk', hworkers⟩ := hserved
  refine ⟨_, rfl, rfl, ?_, ?_, ?_, ?_⟩
  · exact ⟨e, j, hcourse, hj, rfl, hready, ⟨rfl, before, attempts, run, hturn, rfl⟩, .refl⟩
  · rw [hdesk', ← hdesk, ← hnow]
  · rw [hnow', ← hnow]
    exact Nat.le_add_right _ _
  · intro w hw hjob
    rw [hworkers] at hw
    rcases List.mem_append.mp hw with hold | hnew
    · exact absurd hjob (hclear w hold)
    · obtain ⟨i, htask, _⟩ := mem_spawnWorkers hnew
      refine ⟨List.mem_map.mpr ⟨_, List.mem_of_getElem? htask, rfl⟩, ?_⟩
      rw [phase_of_mem_spawnWorkers hnew]
      exact .fresh hnow'

/-- **The tie at the deadline.** A chunk is closed before its tasks have ended only at its deadline, and
only if tasks may not run at all or one of those that are left got its permit at the last instant. -/
theorem AtWorkSince.tie (h : AtWorkSince start e job run begun)
    (hready : e.joinIsReady job run.deadline = true)
    (hnone : (e.workersOf job).find? (·.hasEnded) = none) (hsome : e.workersOf job ≠ []) :
    e.now = run.deadline ∧ (e.desk.executor.taskTimeout = 0 ∨
      ∃ w ∈ e.workers, w.job = job ∧ w.index ∈ run.chunk ∧ ∃ conduct,
        e.Began w.job w.position w.payload (begun + e.desk.executor.permitTimeout) conduct) := by
  have hunended : ∀ w ∈ e.workersOf job, w.hasEnded = false := by
    simpa [List.find?_eq_none] using hnone
  have hdue : run.deadline ≤ e.now := by
    have hany : (e.workersOf job).any (·.hasEnded) = false := by
      simpa [List.any_eq_false] using hunended
    rw [joinIsReady, hany, List.isEmpty_eq_false_iff.mpr hsome] at hready
    simpa using hready
  have hnow : e.now = run.deadline := Nat.le_antisymm h.timely hdue
  refine ⟨hnow, ?_⟩
  rw [h.deadline, ExecutorConfig.chunkTimeout] at hnow
  obtain ⟨w, hw⟩ := List.exists_mem_of_ne_nil _ hsome
  have hended := hunended w hw
  obtain ⟨hmem, hjob⟩ : w ∈ e.workers ∧ w.job = job := by
    simpa [workersOf] using hw
  obtain ⟨hmember, hbounds⟩ := h.tasks w hmem hjob
  unfold Worker.hasEnded at hended
  generalize w.phase = phase at hbounds hended
  cases hbounds with
  | fresh atOnce => exact .inl (by omega)
  | queued since timely | refused timely own => exact .inl (by omega)
  | @working start conduct began since granted timely =>
    have hcut := Nat.le_trans timely (earlier_le _ _)
    obtain rfl : start = begun + e.desk.executor.permitTimeout := by omega
    exact .inr ⟨w, hmem, hjob, hmember, conduct, began⟩
  | @returned start conduct outcome began granted timely own =>
    obtain rfl : start = begun + e.desk.executor.permitTimeout := by omega
    exact .inr ⟨w, hmem, hjob, hmember, conduct, began⟩
  | ended own => cases hended

end Chunks

/-! ### Moves -/

section Moves

variable {start e e' : Engine P R}

theorem KeepsBounds.worker (h : KeepsBounds start e) {w : Worker P R} (hw : w ∈ e.workers)
    (hready : w.isReady e.limiter e.now = true) : KeepsBounds start (e.serveWorker w) := by
  have hwf := h.regular.reached.wellFormed
  have hmove : Move e (e.serveWorker w) := .worker hw hready
  have hhouse := workerTurn_house e w
  have hdesk : (e.serveWorker w).desk = e.desk := hhouse.desk
  have hjobs : (e.serveWorker w).jobs = e.jobs := hhouse.jobs
  have hnow : (e.serveWorker w).now = e.now := hhouse.now
  have hgrown : Grown e (e.serveWorker w) := (workerTurn_grown e w).trans ⟨rfl, fun _ hx => hx⟩
  refine ⟨h.course.tail hmove, hmove.regular h.regular, ?_, ?_, ?_⟩
  · rw [hmove.limiter_patience hwf, h.patience, hdesk]
  · intro j hj attempts run hstage
    rw [hjobs] at hj
    obtain ⟨begun, hchunk⟩ := h.chunks j hj attempts run hstage
    refine ⟨begun, hchunk.opened.mono (.single hmove), ?_, ?_, ?_⟩
    · rw [hdesk]
      exact hchunk.deadline
    · rw [hnow]
      exact hchunk.timely
    · intro v hv hjob
      rcases (mem_serveWorker hwf hw).mp hv with rfl | ⟨hold, _⟩
      · obtain ⟨hmember, hbounds⟩ := hchunk.tasks w hw hjob
        have hturned := (hbounds.turn h.patience hready).withPhase (e.workerTurn w).2
        exact ⟨hmember, hturned.mono ⟨rfl, fun _ hx => hx⟩ rfl⟩
      · obtain ⟨hmember, hbounds⟩ := hchunk.tasks v hold hjob
        exact ⟨hmember, hbounds.mono hgrown hnow⟩
  · intro j hj run hbatch
    rw [hjobs] at hj
    exact (h.deserved j hj run hbatch).mono (.single hmove)

theorem KeepsBounds.job (h : KeepsBounds start e) {k : Job P R} (hk : k ∈ e.jobs)
    (hready : k.isReady e = true) : KeepsBounds start (e.serveJob k) := by
  have hwf := h.regular.reached.wellFormed
  have hmove : Move e (e.serveJob k) := .job hk hready
  have hturn := jobTurn_turn e k (hwf.sound k hk) hready
  have hnow : (e.serveJob k).now = e.now := hturn.sameJobs.now
  have hgrown : Grown e (e.serveJob k) := hturn.grown.trans ⟨rfl, fun _ hx => hx⟩
  have hchunkTurn := hturn.chunkTurn hwf hk
  -- what the turn makes of the job's own batch
  have hown : (∀ attempts run, (e.jobTurn k).2 = .joining attempts run →
        ∃ begun, AtWorkSince start (e.serveJob k) k.number run begun) ∧
      ∀ run, (e.jobTurn k).2.batch? = some run →
        Deserved start (e.serveJob k) k.number run.outcomes := by
    have hhands {outcomes : List (Outcome R)} (houtcomes : HandsOn e k outcomes) :=
      Deserved.handsOn h.course hk hready (h.deserved k hk) houtcomes
    generalize hresult : e.jobTurn k = result at hchunkTurn ⊢
    cases hchunkTurn with
    | away none =>
      refine ⟨?_, ?_⟩
      · intro attempts run hstage
        rw [hstage] at none
        cases none
      · intro run hbatch
        rw [none] at hbatch
        cases hbatch
    | opens desk now clear outcomes =>
      obtain ⟨run', hstage, hsame, hopened⟩ :=
        AtWorkSince.opens h.course hk hready hresult desk now clear
      rw [hresult] at hstage
      rw [hstage]
      refine ⟨?_, ?_⟩
      · intro attempts run hjoining
        cases hjoining
        exact ⟨e.now, hopened⟩
      · intro run hbatch
        cases hbatch
        rw [hsame]
        exact hhands outcomes
    | @collects attempts run w source found =>
      obtain ⟨begun, hchunk⟩ := h.chunks k hk attempts run source
      obtain ⟨hmem, hjob⟩ : w ∈ e.workers ∧ w.job = k.number := by
        simpa [workersOf] using List.mem_of_find?_eq_some found
      have hworkers : (e.serveJob k).workers = (e.collect w).workers := by
        simp only [serveJob, hresult]
      have hkept := hchunk.frame (.single hmove) hgrown hnow fun v hv _ =>
        List.mem_of_mem_filter (hworkers ▸ hv)
      obtain ⟨_, _, hsame⟩ := noteOutcome_position run w.index w.outcome?
      refine ⟨?_, ?_⟩
      · intro attempts' run' hjoining
        cases hjoining
        refine ⟨begun, hsame ▸ hkept.opened, ?_, ?_, hsame ▸ hkept.tasks⟩
        · cases w.outcome? <;> exact hkept.deadline
        · cases w.outcome? <;> exact hkept.timely
      · intro run' hbatch
        cases hbatch
        have hbefore := (h.deserved k hk run (by rw [source]; rfl)).mono (.single hmove)
        exact hbefore.noteOutcome w.index (hchunk.outcome?_ne hmem hjob)
    | pauses outcomes =>
      refine ⟨?_, ?_⟩
      · intro attempts run hjoining
        cases hjoining
      · intro run hbatch
        cases hbatch
        exact hhands outcomes
  refine ⟨h.course.tail hmove, hmove.regular h.regular, ?_, ?_, ?_⟩
  · rw [hmove.limiter_patience hwf, h.patience, hgrown.desk]
  · intro j hj attempts run hstage
    rcases mem_serveJob hwf hk hready hj with rfl | ⟨hold, hne⟩
    · exact hown.1 attempts run hstage
    · obtain ⟨begun, hchunk⟩ := h.chunks j hold attempts run hstage
      have helse := serveJob_elsewhere hwf h.regular.suited hk hready (Ne.symm hne)
      exact ⟨begun, hchunk.frame (.single hmove) hgrown hnow fun w hw hjob =>
        (helse.workers w hjob).mp hw⟩
  · intro j hj run hbatch
    rcases mem_serveJob hwf hk hready hj with rfl | ⟨hold, _⟩
    · exact hown.2 run hbatch
    · exact (h.deserved j hold run hbatch).mono (.single hmove)

theorem KeepsBounds.tick (h : KeepsBounds start e) {time : Nat} (hquiet : e.Quiet)
    (hdue : e.due? = some time) : KeepsBounds start { e with now := time } := by
  have hmove : Move e { e with now := time } := .tick hquiet hdue
  obtain ⟨_, hworkers, hjobs⟩ := firstTurn_spec hdue
  have hlater : e.now ≤ time := hmove.now_le h.regular.reached.wellFormed
  refine ⟨h.course.tail hmove, hmove.regular h.regular, h.patience, ?_, ?_⟩
  · intro j hj attempts run hstage
    obtain ⟨begun, hchunk⟩ := h.chunks j hj attempts run hstage
    refine ⟨begun, hchunk.opened.mono (.single hmove), hchunk.deadline, ?_, ?_⟩
    · refine hjobs j hj _ ?_
      rw [Job.due?, hstage]
    · intro w hw hjob
      obtain ⟨hmember, hbounds⟩ := hchunk.tasks w hw hjob
      exact ⟨hmember, hbounds.tick hlater (hquiet.workers w hw) (hworkers w hw)⟩
  · intro j hj run hbatch
    exact (h.deserved j hj run hbatch).mono (.single hmove)

/-- **Every move keeps all batches to the bounds of their tasks.** -/
theorem Move.keepsBounds (hmove : Move e e') (h : KeepsBounds start e) : KeepsBounds start e' := by
  cases hmove with
  | worker member ready => exact h.worker member ready
  | job member ready => exact h.job member ready
  | tick quiet due => exact h.tick quiet due

theorem AtRest.keepsBounds (hrest : e.AtRest)
    (hpatience : e.limiter.patience = e.desk.executor.permitTimeout)
    (assignments : List (Nat × Assignment P)) :
    KeepsBounds (e.addJobs assignments).unturned (e.addJobs assignments).unturned := by
  refine ⟨.refl, hrest.regular assignments, ?_, ?_, ?_⟩
  · rw [addJobs_eq]
    exact hpatience
  · intro j hj attempts run hstage
    obtain ⟨due, harriving⟩ := hrest.arriving hj
    rw [harriving] at hstage
    cases hstage
  · intro j hj run hbatch
    obtain ⟨due, harriving⟩ := hrest.arriving hj
    rw [harriving] at hbatch
    cases hbatch

/-- On every course the bounds are kept. -/
theorem AtRest.course_keepsBounds (hrest : e.AtRest)
    (hpatience : e.limiter.patience = e.desk.executor.permitTimeout)
    {assignments : List (Nat × Assignment P)}
    (hcourse : Course (e.addJobs assignments).unturned e') :
    KeepsBounds (e.addJobs assignments).unturned e' :=
  hcourse.keeps Move.keepsBounds (hrest.keepsBounds hpatience assignments)

end Moves

/-! ### The end of a chunk -/

/-- How a chunk is closed that began at an instant. If tasks of it are left, this is a tie: the deadline has
just come, and one of them may not run or was given its permit at the last instant. Each of its tasks has
the outcome that became of it, and says that the chunk was cut off only if it was. -/
structure Closes (start e : Engine P R) (j : Job P R) (run : BatchRun P R) (begun : Nat) : Prop where
  tie : e.workersOf j.number ≠ [] →
    e.now = begun + e.desk.executor.permitTimeout + e.desk.executor.taskTimeout ∧
      (e.desk.executor.taskTimeout = 0 ∨
        ∃ w ∈ e.workers, w.job = j.number ∧ w.index ∈ run.chunk ∧ ∃ conduct,
          e.Began w.job w.position w.payload (begun + e.desk.executor.permitTimeout) conduct)
  fates : ∀ q t, j.assignment.tasks[q]? = some t → t.index ∈ run.chunk →
    ∃ o, (e.settled j.number run).2[t.index]? = some o ∧ Fate e j.number q t.payload o
  deserved : Deserved start (e.serveJob j) j.number (e.settled j.number run).2

/-- The tasks of a chunk that is closed have their outcomes. -/
theorem Booked.fates {e : Engine P R} {job : Nat} {tasks : List (BatchTask P)} {run : BatchRun P R}
    (h : Booked e job tasks run) {q : Nat} {t : BatchTask P} (ht : tasks[q]? = some t)
    (hmember : t.index ∈ run.chunk) :
    ∃ o, (e.settled job run).2[t.index]? = some o ∧ Fate e job q t.payload o := by
  have hclosed := settled_closed h
  have hsame : (e.settled job run).1.exchanges = e.exchanges :=
    (settled_floor e job run).exchanges.trans (dismissAll_exchanges e job)
  have hback : Grown (e.settled job run).1 e :=
    ⟨(settled_sameJobs e job run).desk.symm, fun _ hx => hsame ▸ hx⟩
  obtain ⟨q', t', hbefore, ht', hindex⟩ := h.chunk t.index hmember
  obtain ⟨rfl, rfl⟩ := position_unique h.valid ht' ht hindex
  have hlength : t'.index < (e.settled job run).2.length := by
    rw [hclosed.noted.length]
    exact (checkTasks_ok h.valid).1 t' (List.mem_of_getElem? ht)
  refine ⟨_, List.getElem?_eq_getElem hlength, ?_⟩
  have hplace := List.getElem?_eq_getElem hlength
  rcases hclosed.noted.fates q' t' _ ht hplace with hpending | hfate
  · -- no place of a chunk that is closed is open
    rw [hpending, ← isMissing_iff] at hplace
    exact absurd (hclosed.done q' t' hbefore ht) (by simp [hplace])
  · exact hfate.mono hback

section Ends

variable {start e : Engine P R}

/-- **Whoever closes a chunk closes it in this way.** -/
theorem KeepsBounds.closes (h : KeepsBounds start e) {j : Job P R} (hj : j ∈ e.jobs)
    (hready : j.isReady e = true) {attempts begun : Nat} {run : BatchRun P R}
    (hstage : j.stage = .joining attempts run)
    (hnone : (e.workersOf j.number).find? (·.hasEnded) = none)
    (hchunk : AtWorkSince start e j.number run begun) : Closes start e j run begun := by
  have hbooked : Booked e j.number j.assignment.tasks run := by
    have htells := h.regular.reached.truthful j hj
    rwa [hstage] at htells
  refine ⟨?_, fun q t ht hmember => hbooked.fates ht hmember, ?_⟩
  · intro hsome
    have hjoin : e.joinIsReady j.number run.deadline = true := by
      rwa [Job.isReady, hstage] at hready
    obtain ⟨hnow, htie⟩ := hchunk.tie hjoin hnone hsome
    rw [hnow, hchunk.deadline, ExecutorConfig.chunkTimeout, Nat.add_assoc]
    exact ⟨rfl, htie⟩
  · exact Deserved.handsOn h.course hj hready (h.deserved j hj) (.closed hstage hnone)

/-- The result of a batch that is executed is that of its last chunk. -/
theorem Executing.deserved {job begin : Nat} {tasks : List (BatchTask P)} {j : Job P R}
    (hexecuting : Executing job tasks begin e) (h : KeepsBounds start e) (hj : j ∈ e.jobs)
    (hnumber : j.number = job) (hready : j.isReady e = true) {time : Nat} {r : BatchResult R}
    (hended : (e.jobTurn j).2 = .finished time (.ok (.ok (.batch r)))) :
    Deserved start (e.serveJob j) job r.outcomes := by
  have hturn := hexecuting.turn hj hnumber hready
  subst hnumber
  generalize hstage : j.stage = stage at hturn
  generalize hresult : e.jobTurn j = result at hturn hended
  cases hturn with
  | declines paper empty =>
    obtain ⟨_, hbatch⟩ := Stage.finished.inj hended
    rw [empty r hbatch]
    intro index hindex
    cases hindex
  | finishes none last =>
    obtain ⟨_, hbatch⟩ := Stage.finished.inj hended
    cases hbatch
    exact Deserved.handsOn h.course hj hready (h.deserved j hj) (.closed hstage none)
  | begins | collects | pauses | reopens | resumes => cases hended

/-- A job that has ended came to its ending in a turn of its own. -/
theorem Course.ending_turn (hcourse : Course start e) (hregular : start.Regular)
    (hbegun : ∀ j ∈ start.jobs, j.stage.isFinished = false) {j : Job P R} (hj : j ∈ e.jobs)
    {time : Nat} {ending : Ending R} (hstage : j.stage = .finished time ending) :
    Took start e j.number fun e₁ k => (e₁.jobTurn k).2 = .finished time ending := by
  have hleft := Course.left hcourse hregular (p := fun stage => !stage.isFinished)
    (fun k hk => by simp [hbegun k hk]) j hj
  simp only [hstage, Stage.isFinished, Bool.not_true, Bool.false_eq_true, false_or] at hleft
  obtain ⟨e₁, k, hbefore, hk, hsame, hready, ⟨_, hquits⟩, hafter⟩ := hleft
  have hregular₁ := Course.regular hbefore hregular
  have hregular₂ := (Move.job hk hready).regular hregular₁
  obtain ⟨time', ending', hended⟩ : ∃ time' ending', (e₁.jobTurn k).2 = .finished time' ending' := by
    generalize (e₁.jobTurn k).2 = stage at hquits
    cases stage with
    | finished time' ending' => exact ⟨time', ending', rfl⟩
    | _ => cases hquits
  -- it has the same ending ever since
  have hself := self_mem_serveJob hregular₁.reached.wellFormed hk hready
  obtain ⟨hstays, _⟩ := Course.ended hafter hregular₂ hself hended
  have hwf := (Course.regular hafter hregular₂).reached.wellFormed
  obtain rfl : j = _ := hwf.job_unique hj hstays hsame.symm
  exact ⟨e₁, k, hbefore, hk, hsame, hready, hstage, hafter⟩

/-- The result of a batch on a course. -/
theorem Course.deserved {job begin : Nat} {tasks : List (BatchTask P)} (hcourse : Course start e)
    (hkeeps : KeepsBounds start start) (hexecuting : Executing job tasks begin start)
    (hbegun : ∀ j ∈ start.jobs, j.stage.isFinished = false) {j : Job P R} (hj : j ∈ e.jobs)
    (hnumber : j.number = job) {time : Nat} {r : BatchResult R}
    (hstage : j.stage = .finished time (.ok (.ok (.batch r)))) :
    Deserved start e job r.outcomes := by
  obtain ⟨e₁, k, hbefore, hk, hsame, hready, hended, hafter⟩ :=
    Course.ending_turn hcourse hkeeps.regular hbegun hj hstage
  have hkeeps₁ : KeepsBounds start e₁ := hbefore.keeps Move.keepsBounds hkeeps
  have hexecuting₁ : Executing job tasks begin e₁ := hbefore.keeps Move.executing hexecuting
  exact (hexecuting₁.deserved hkeeps₁ hk (hsame.trans hnumber) hready hended).mono hafter

end Ends

/-- **A deadline never comes before the bounds of the tasks.** On every course, whatever the tasks do and
whatever else is going on, a chunk at work has a deadline as far from its beginning as a wait for a permit and
a run together, and all of its tasks are within their own bounds. When it is closed although tasks of it are
left, the deadline has just come, and tasks may not run at all or one of these was given its permit at the
last instant at which it could be. Every task has the outcome that became of it, and only those of a
chunk that was closed in this way say that it was cut off; so do the results of what is executed. -/
theorem chunks_cut_off_only_in_ties {e : Engine P R} (hrest : e.AtRest)
    (hpatience : e.limiter.patience = e.desk.executor.permitTimeout)
    (assignments : List (Nat × Assignment P)) :
    let start := (e.addJobs assignments).unturned
    (∀ e', Course start e' → ∀ j ∈ e'.jobs, ∀ attempts run, j.stage = .joining attempts run →
      ∃ begun, AtWorkSince start e' j.number run begun ∧
        (j.isReady e' = true → (e'.workersOf j.number).find? (·.hasEnded) = none →
          Closes start e' j run begun)) ∧
    ∀ i wait tasks, assignments[i]? = some (wait, .execute tasks) →
      (∀ e', Course start e' → ∀ j ∈ e'.jobs, j.number = e.nextNumber + i → ∀ time r,
        j.stage = .finished time (.ok (.ok (.batch r))) →
        AccountsFor e' j.number tasks r ∧ Deserved start e' j.number r.outcomes) ∧
      ∃ done, Course start done ∧ (e.perform assignments).1.unturned = { done with jobs := [] } ∧
        ∀ time r, (e.perform assignments).2[i]? = some (some (time, .ok (.ok (.batch r)))) →
          AccountsFor done (e.nextNumber + i) tasks r ∧
            Deserved start done (e.nextNumber + i) r.outcomes := by
  intro start
  have hkeeps {e' : Engine P R} (hcourse : Course start e') : KeepsBounds start e' :=
    hrest.course_keepsBounds hpatience hcourse
  refine ⟨?_, ?_⟩
  · intro e' hcourse j hj attempts run hstage
    obtain ⟨begun, hchunk⟩ := (hkeeps hcourse).chunks j hj attempts run hstage
    refine ⟨begun, hchunk, ?_⟩
    intro hready hnone
    exact (hkeeps hcourse).closes hj hready hstage hnone hchunk
  · intro i wait tasks hassigned
    have hbegun : ∀ j ∈ start.jobs, j.stage.isFinished = false := by
      intro j hj
      obtain ⟨due, harriving⟩ := hrest.arriving hj
      rw [harriving]
      rfl
    have hresult {e' : Engine P R} (hcourse : Course start e') {j : Job P R} (hj : j ∈ e'.jobs)
        (hnumber : j.number = e.nextNumber + i) {time : Nat} {r : BatchResult R}
        (hstage : j.stage = .finished time (.ok (.ok (.batch r)))) :
        AccountsFor e' j.number tasks r ∧ Deserved start e' j.number r.outcomes := by
      have hexecuting := hrest.executing hassigned
      obtain ⟨hassignment, _⟩ := (hcourse.keeps Move.executing hexecuting).batch j hj hnumber
      have htells := (hkeeps hcourse).regular.reached.truthful j hj
      rw [hassignment, hstage] at htells
      rw [hnumber] at htells ⊢
      exact ⟨Reported.accountsFor htells,
        Course.deserved hcourse (hkeeps .refl) hexecuting hbegun hj hnumber hstage⟩
    refine ⟨fun e' hcourse j hj hnumber time r hstage => hresult hcourse hj hnumber hstage, ?_⟩
    obtain ⟨done, hcourse, hsettled, hwf, hdone, hendings⟩ := perform_course hrest assignments
    refine ⟨done, hcourse, hdone, ?_⟩
    intro time r hending
    obtain ⟨j, hj, hnumber, hassignment⟩ := hrest.exists_job hcourse hassigned
    have hmem := List.mem_of_getElem? hj
    obtain ⟨time', ending, hstage⟩ := hsettled.finished hwf hmem (by rw [hassignment]; rfl)
    rw [hendings, List.getElem?_map, hj, Option.map_some, Job.ending?, hstage] at hending
    cases hending
    rw [← hnumber]
    exact hresult hcourse hmem hnumber hstage

def outcomesOf : Option (Nat × Ending R) → Option (List (Outcome R))
  | some (_, .ok (.ok (.batch r))) => some r.outcomes
  | _ => none

theorem exists_batch_of_outcomes {answer : Option (Option (Nat × Ending R))}
    {outcomes : List (Outcome R)} (h : answer.bind outcomesOf = some outcomes) :
    ∃ time r, answer = some (some (time, .ok (.ok (.batch r)))) ∧ r.outcomes = outcomes := by
  obtain ⟨ended, rfl, houtcomes⟩ := Option.bind_eq_some_iff.mp h
  unfold outcomesOf at houtcomes
  split at houtcomes
  · exact ⟨_, _, rfl, Option.some.inj houtcomes⟩
  · cases houtcomes

/-- There is one permit, for which a task may wait three and with which it may run four. The first task gives
it back after three, so that the second gets it at the last instant, and nothing comes back. The job is
served before it. -/
theorem second_of_two_cut_off_in_tie :
    let desk : Desk (Conduct (Except DownstreamFailure Nat)) Nat :=
      .forTasks Nat { maxConcurrency := 1, permitTimeout := 3, taskTimeout := 4 }
    let e := begun desk {} {} none [] 0
    let tasks := BatchTask.ofPayloads [Conduct.answers 3 (Except.ok 7), .hangs]
    let start := (e.addJobs [(0, .execute tasks)]).unturned
    e.AtRest ∧ e.limiter.patience = e.desk.executor.permitTimeout ∧
      ((e.perform [(0, .execute tasks)]).2[0]?).bind outcomesOf =
        some [.success 7, .failure chunkTimeoutReason] ∧
      ∃ e' begun, Course start e' ∧ e'.now = begun + 3 + 4 ∧
        ∃ w ∈ e'.workers, w.job = 0 ∧ ∃ conduct, e'.Began 0 w.position w.payload (begun + 3) conduct := by
  intro desk e tasks start
  have hrest : e.AtRest := begun_atRest _ _ _ _ _ _
  have houtcomes : ((e.perform [(0, .execute tasks)]).2[0]?).bind outcomesOf =
      some [.success 7, .failure chunkTimeoutReason] := by decide +kernel
  obtain ⟨hchunks, hresults⟩ := chunks_cut_off_only_in_ties hrest rfl [(0, .execute tasks)]
  obtain ⟨time, r, hending, hsaid⟩ := exists_batch_of_outcomes houtcomes
  obtain ⟨done, _, _, hreported⟩ := (hresults 0 0 tasks rfl).2
  obtain ⟨e', j, hbefore, hj, hnumber, hready, ⟨attempts, run, hstage, _, hnone, hsome⟩, _⟩ :=
    (hreported time r hending).2 1 (by rw [hsaid]; rfl)
  obtain ⟨begun, _, hcloses⟩ := hchunks e' hbefore j hj attempts run hstage
  have hdesk : e'.desk = desk := hbefore.desk (hrest.wellFormed _)
  obtain ⟨hnow, hnever | ⟨w, hw, hjob, _, conduct, hbegan⟩⟩ := (hcloses hready hnone).tie hsome
  · rw [hdesk] at hnever
    cases hnever
  · rw [hdesk] at hnow hbegan
    have hown : w.job = 0 := hjob.trans hnumber
    rw [hown] at hbegan
    exact ⟨hrest, rfl, houtcomes, e', begun, hbefore, hnow, w, hw, hown, conduct, hbegan⟩

end Engine
end OrderAdmission
