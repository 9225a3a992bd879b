import OrderAdmission.Proofs.CallTimes
import OrderAdmission.Proofs.Executions

/-!
# Blocks of a batch

A batch is cut into blocks of equal size, one behind another, and each of them is at work as one chunk.
Two things are followed along the turns of a job that executes a batch. `InBlocks` says how far it has come:
the tasks of one block are at work, and of what lies behind it nothing has been called. `InTime` says at
which times it may be there: a block is through at its deadline, and the next one begins after the pause.

That a block never overlaps with a later one is then a matter of one instant at which a task of it is still
there: from then on no call of a later block is made until the chunk has been closed and the pause after it
is over (`HoldsBack`). The main result is `blocks_follow_one_another`.
-/
namespace OrderAdmission

variable {P R : Type}

namespace Engine

/-! ### Times -/

/-- Where a batch that begins at an instant stands when it is on time. -/
inductive InTime (c : ExecutorConfig) (begin total now : Nat) : Stage P R → Prop where
  | arriving (timely : now ≤ begin) : InTime c begin total now (.arriving begin)
  | joining {attempts : Nat} {run : BatchRun P R} (timely : now ≤ run.deadline)
      (ends : run.deadline + c.longestAfter run.remaining.length ≤ begin + c.longest total) :
      InTime c begin total now (.joining attempts run)
  | pausing {attempts due : Nat} {run : BatchRun P R} (timely : now ≤ due)
      (ends : due + c.longest run.remaining.length ≤ begin + c.longest total) :
      InTime c begin total now (.pausing attempts run due)
  | finished {time : Nat} {ending : Ending R} (ends : time ≤ begin + c.longest total) :
      InTime c begin total now (.finished time ending)

theorem InTime.tick {c : ExecutorConfig} {begin total now time : Nat} {j : Job P R}
    (h : InTime c begin total now j.stage) (hdue : ∀ t, j.due? = some t → time ≤ t) :
    InTime c begin total time j.stage := by
  obtain ⟨number, a, stage, turn⟩ := j
  cases h with
  | arriving timely => exact .arriving (hdue _ rfl)
  | joining timely ends => exact .joining (hdue _ rfl) ends
  | pausing timely ends => exact .pausing (hdue _ rfl) ends
  | finished ends => exact .finished ends

section Times

variable {e : Engine P R} {begin total : Nat}

theorem InTime.openChunk (job : Nat) (run : BatchRun P R) (hsome : run.remaining ≠ [])
    (hends : e.now + e.desk.executor.longest run.remaining.length ≤
      begin + e.desk.executor.longest total) (attempts : Nat) :
    InTime e.desk.executor begin total e.now (e.openChunk job attempts run).2 := by
  rw [ExecutorConfig.longest_of_pos _ (List.length_pos_iff.mpr hsome), ← Nat.add_assoc] at hends
  refine .joining (Nat.le_add_right _ _) ?_
  simp only [List.length_drop]
  exact hends

/-- **A turn of a batch that is on time.** -/
theorem InTime.executeTurn {job : Nat} {tasks : List (BatchTask P)} {stage : Stage P R}
    {result : Engine P R × Stage P R}
    (h : InTime e.desk.executor begin tasks.length e.now stage)
    (hturn : ExecuteTurn e job tasks stage result) :
    InTime e.desk.executor begin tasks.length e.now result.2 := by
  have hsettled (run : BatchRun P R) := settled_sameJobs e job run
  cases hturn with
  | @begins due breaker some valid admitted =>
    cases h with
    | arriving timely =>
      exact InTime.openChunk (e := e.setBreaker breaker) job (.whole tasks) some
        (Nat.add_le_add_right timely _) 0
  | declines paper empty =>
    cases h with
    | arriving timely => exact .finished (Nat.le_trans timely (Nat.le_add_right _ _))
  | @collects attempts run w found =>
    cases h with
    | joining timely ends =>
      refine .joining ?_ ?_
      · cases w.outcome? <;> exact timely
      · cases w.outcome? <;> exact ends
  | @pauses attempts run none some =>
    cases h with
    | joining timely ends =>
      rw [ExecutorConfig.longestAfter, if_neg (by simpa using some), ← Nat.add_assoc] at ends
      refine .pausing (Nat.le_add_right _ _) (Nat.le_trans ?_ ends)
      exact Nat.add_le_add_right (Nat.add_le_add_right timely _) _
  | @reopens attempts run none some pauseless =>
    cases h with
    | joining timely ends =>
      rw [ExecutorConfig.longestAfter, if_neg (by simpa using some), pauseless, Nat.zero_add] at ends
      rw [← (hsettled run).now] at timely
      rw [← (hsettled run).desk] at ends
      have hopened := InTime.openChunk job { run with outcomes := (e.settled job run).2 } some
        (Nat.le_trans (Nat.add_le_add_right timely _) ends) attempts
      rw [(hsettled run).now, (hsettled run).desk] at hopened
      exact hopened
  | finishes none last =>
    cases h with
    | joining timely ends =>
      exact .finished (Nat.le_trans timely (Nat.le_trans (Nat.le_add_right _ _) ends))
  | resumes some rested =>
    cases h with
    | pausing timely ends =>
      exact InTime.openChunk _ _ some (Nat.le_trans (Nat.add_le_add_right timely _) ends) _

end Times

/-! ### Places -/

/-- How far a batch has come that is executed in blocks. -/
inductive InBlocks (e : Engine P R) (job : Nat) (tasks : List (BatchTask P)) :
    Stage P R → Prop where
  | arriving {due : Nat} (clear : Clear e job tasks) : InBlocks e job tasks (.arriving due)
  | joining {attempts block : Nat} {run : BatchRun P R} (some : block * e.chunkSize < tasks.length)
      (cut : Cut e.chunkSize tasks (block + 1) run)
      (chunk : run.chunk = (chunkAt e.chunkSize block tasks).map (·.index))
      (seats : Seats e job e.chunkSize block) (singly : Singly e job tasks run.position) :
      InBlocks e job tasks (.joining attempts run)
  | pausing {attempts begun due : Nat} {run : BatchRun P R} (cut : Cut e.chunkSize tasks begun run)
      (singly : Singly e job tasks run.position) : InBlocks e job tasks (.pausing attempts run due)
  | finished {time : Nat} {ending : Ending R} (spare : e.Spare job) (ordered : e.Ordered job tasks) :
      InBlocks e job tasks (.finished time ending)

section Places

variable {e e' : Engine P R} {job : Nat} {tasks : List (BatchTask P)} {stage : Stage P R}

theorem InBlocks.isExecution (h : InBlocks e job tasks stage) : stage.isExecution = true := by
  cases h <;> rfl

theorem InBlocks.called (h : InBlocks e job tasks stage) : e.Spare job ∧ e.Ordered job tasks := by
  cases h with
  | arriving clear => exact ⟨clear.spare, clear.ordered⟩
  | joining some cut chunk seats singly => exact ⟨singly.spare, singly.ordered⟩
  | pausing cut singly => exact ⟨singly.spare, singly.ordered⟩
  | finished spare ordered => exact ⟨spare, ordered⟩

theorem InBlocks.frame (h : InBlocks e job tasks stage) (helse : Elsewhere job e e')
    (hdesk : e'.desk = e.desk) : InBlocks e' job tasks stage := by
  have hsize : e'.chunkSize = e.chunkSize := by rw [chunkSize, chunkSize, hdesk]
  have hsingly {position : Nat} (hsingly : Singly e job tasks position) :
      Singly e' job tasks position :=
    hsingly.grow (Nat.le_refl _) (fun w hw hjob => Or.inl ((helse.workers w hjob).mp hw)) helse.aside
  cases h with
  | arriving clear => exact .arriving (clear.aside helse.aside)
  | joining some cut chunk seats singly =>
    rw [← hsize] at some cut chunk seats
    exact .joining some cut chunk (seats.mono fun w hw hjob => (helse.workers w hjob).mp hw)
      (hsingly singly)
  | pausing cut singly =>
    rw [← hsize] at cut
    exact .pausing cut (hsingly singly)
  | finished spare ordered => exact .finished (spare.aside helse.aside) (ordered.aside helse.aside)

/-- The next block begins behind all that have been at work. -/
theorem InBlocks.openChunk {begun : Nat} {run : BatchRun P R} (attempts : Nat)
    (hcut : Cut e.chunkSize tasks begun run) (hsome : run.remaining ≠ [])
    (hnone : ∀ w ∈ e.workers, w.job ≠ job) (hsingly : Singly e job tasks run.position) :
    InBlocks (e.openChunk job attempts run).1 job tasks (e.openChunk job attempts run).2 := by
  have hseats := Seats.openChunk attempts hcut hsome hnone
  obtain ⟨run', hstage, hcut', _, hchunk, _⟩ := hcut.openChunk job attempts
  have hposition : (e.openChunk job attempts run).2.position? = some run'.position := by
    rw [hstage]
    rfl
  obtain ⟨hle, hworkers⟩ := openChunk_position hposition
  rw [hstage]
  refine .joining (hcut.some_iff.mp hsome) hcut' hchunk hseats ?_
  exact hsingly.grow hle (fun w hw _ => hworkers w hw) (.nothing rfl)

/-- A turn of a batch leads from block to block. -/
theorem InBlocks.executeTurn {result : Engine P R × Stage P R} (h : InBlocks e job tasks stage)
    (hturn : ExecuteTurn e job tasks stage result)
    (hnone : stage.isJoining = false → ∀ w ∈ e.workers, w.job ≠ job) :
    InBlocks result.1 job tasks result.2 := by
  have haside := hturn.aside
  have hdesk (run : BatchRun P R) : (e.settled job run).1.chunkSize = e.chunkSize := by
    rw [chunkSize, chunkSize, (settled_sameJobs e job run).desk]
  have hsettled {run : BatchRun P R} (hsingly : Singly e job tasks run.position) :
      Singly (e.settled job run).1 job tasks run.position := by
    refine hsingly.grow (Nat.le_refl _) ?_ ?_
    · exact fun w hw hjob => absurd hjob (settled_gone e job run w hw)
    · exact settled_aside e job job run
  cases hturn with
  | @begins due breaker some valid admitted =>
    cases h with
    | arriving clear =>
      have hasked : Clear (e.setBreaker breaker) job tasks := clear.aside (.nothing rfl)
      exact InBlocks.openChunk (e := e.setBreaker breaker) 0 (.whole _ tasks) some (hnone rfl)
        (hasked.singly _)
  | declines paper empty =>
    cases h with
    | arriving clear => exact .finished (clear.spare.aside haside) (clear.ordered.aside haside)
  | @collects attempts run w found =>
    cases h with
    | joining some cut chunk seats singly =>
      have hkept : ∀ v ∈ (e.collect w).workers, v.job = job → v ∈ e.workers :=
        fun v hv _ => List.mem_of_mem_filter hv
      obtain ⟨hposition, _, hchunk⟩ := noteOutcome_position run w.index w.outcome?
      refine .joining some (cut.noteOutcome _ _) (hchunk.trans chunk) (seats.mono hkept) ?_
      exact singly.grow hposition.ge (fun v hv hjob => Or.inl (hkept v hv hjob)) haside
  | @pauses attempts run none some =>
    cases h with
    | joining _ cut chunk seats singly =>
      rw [← hdesk run] at cut
      exact .pausing ⟨cut.remaining, cut.position⟩ (hsettled singly)
  | @reopens attempts run none some pauseless =>
    cases h with
    | joining _ cut chunk seats singly =>
      rw [← hdesk run] at cut
      exact InBlocks.openChunk (e := (e.settled job run).1) attempts ⟨cut.remaining, cut.position⟩ some
        (settled_gone e job run) (hsettled singly)
  | finishes none last =>
    cases h with
    | joining some cut chunk seats singly =>
      exact .finished (singly.spare.aside haside) (singly.ordered.aside haside)
  | resumes some rested =>
    cases h with
    | pausing cut singly => exact InBlocks.openChunk _ cut some (hnone rfl) singly

/-- A worker that is served has its place in the block at work. -/
theorem InBlocks.serveWorker (hwf : e.WellFormed) {attempts : Nat} {run : BatchRun P R}
    (h : InBlocks e job tasks (.joining attempts run)) (hbooked : Booked e job tasks run)
    {w : Worker P R} (hw : w ∈ e.workers) (hjob : w.job = job)
    (hready : w.isReady e.limiter e.now = true) :
    w.position < run.position ∧ InBlocks (e.serveWorker w) job tasks (.joining attempts run) := by
  subst hjob
  cases h with
  | joining some cut chunk seats singly =>
    have htask := hbooked.staff w hw rfl
    have hbefore : w.position < run.position :=
      seats.lt_position (chunkSize_pos e) cut hw rfl (List.getElem?_eq_some_iff.mp htask).1
    have hseated : Seated e w run.position :=
      ⟨hw, hready, hbefore, fun v hv hvjob hsame => seats.apart v hv w hw hvjob rfl hsame⟩
    have hsize : (e.serveWorker w).chunkSize = e.chunkSize := by
      have hdesk : (e.serveWorker w).desk = e.desk := (workerTurn_house e w).desk
      rw [chunkSize, chunkSize, hdesk]
    have hserved := singly.serveWorker hwf hseated htask
    have hseats := seats.serveWorker hwf hw
    rw [← hsize] at some cut chunk hseats
    exact ⟨hbefore, .joining some cut chunk hseats hserved⟩

end Places

/-! ### Moves -/

/-- A job that executes a batch which begins at an instant is in its blocks and on time, whatever else
goes on. -/
structure Executing (job : Nat) (tasks : List (BatchTask P)) (begin : Nat) (e : Engine P R) :
    Prop where
  regular : e.Regular
  batch : ∀ j ∈ e.jobs, j.number = job → j.assignment = .execute tasks ∧
    InBlocks e job tasks j.stage ∧ InTime e.desk.executor begin tasks.length e.now j.stage

section Moves

variable {e e' : Engine P R} {job begin : Nat} {tasks : List (BatchTask P)}

theorem Executing.turn (h : Executing job tasks begin e) {j : Job P R} (hj : j ∈ e.jobs)
    (hnumber : j.number = job) (hready : j.isReady e = true) :
    ExecuteTurn e job tasks j.stage (e.jobTurn j) := by
  obtain ⟨hassignment, hblocks, _⟩ := h.batch j hj hnumber
  rw [← hnumber]
  exact jobTurn_execute h.regular.reached.wellFormed hj hassignment hblocks.isExecution hready

theorem Executing.booked (h : Executing job tasks begin e) {j : Job P R} (hj : j ∈ e.jobs)
    (hnumber : j.number = job) {attempts : Nat} {run : BatchRun P R}
    (hstage : j.stage = .joining attempts run) :
    Booked e job tasks run ∧ InBlocks e job tasks (.joining attempts run) := by
  obtain ⟨hassignment, hblocks, _⟩ := h.batch j hj hnumber
  have htells := h.regular.reached.truthful j hj
  rw [hnumber, hassignment, hstage] at htells
  rw [hstage] at hblocks
  exact ⟨htells, hblocks⟩

theorem Executing.joining (h : Executing job tasks begin e) {w : Worker P R} (hw : w ∈ e.workers)
    (hjob : w.job = job) {j : Job P R} (hj : j ∈ e.jobs) (hnumber : j.number = job) :
    ∃ attempts run, j.stage = .joining attempts run := by
  have hjoining := h.regular.reached.wellFormed.isJoining hj hw (hjob.trans hnumber.symm)
  obtain ⟨number, a, stage, turn⟩ := j
  cases stage with
  | joining attempts run => exact ⟨attempts, run, rfl⟩
  | _ => cases hjoining

theorem Executing.employer (h : Executing job tasks begin e) {w : Worker P R} (hw : w ∈ e.workers)
    (hjob : w.job = job) : ∃ j ∈ e.jobs, j.number = job ∧
      ∃ attempts run, j.stage = .joining attempts run := by
  obtain ⟨j, hj, hsame, _⟩ := h.regular.reached.wellFormed.staffed w hw
  have hnumber : j.number = job := hsame.trans hjob
  exact ⟨j, hj, hnumber, h.joining hw hjob hj hnumber⟩

/-- **Every move keeps a batch in its blocks and on time.** -/
theorem Move.executing (hmove : Move e e') (h : Executing job tasks begin e) :
    Executing job tasks begin e' := by
  have hwf := h.regular.reached.wellFormed
  have hdesk := hmove.desk hwf
  refine ⟨hmove.regular h.regular, ?_⟩
  rw [hdesk]
  cases hmove with
  | @worker w member ready =>
    have hhouse := workerTurn_house e w
    have hjobs : (e.serveWorker w).jobs = e.jobs := hhouse.jobs
    have hnow : (e.serveWorker w).now = e.now := hhouse.now
    rw [hnow]
    intro j hj hnumber
    rw [hjobs] at hj
    obtain ⟨hassignment, hblocks, htime⟩ := h.batch j hj hnumber
    refine ⟨hassignment, ?_, htime⟩
    by_cases hown : w.job = job
    · obtain ⟨attempts, run, hstage⟩ := h.joining member hown hj hnumber
      obtain ⟨hbooked, hjoining⟩ := h.booked hj hnumber hstage
      rw [hstage]
      exact (hjoining.serveWorker hwf hbooked member hown ready).2
    · exact hblocks.frame (serveWorker_elsewhere hwf member hown) hdesk
  | @job k member ready =>
    have hnow : (e.serveJob k).now = e.now :=
      (jobTurn_turn e k (hwf.sound k member) ready).sameJobs.now
    rw [hnow]
    intro j hj hnumber
    rcases mem_serveJob hwf member ready hj with rfl | ⟨hold, hne⟩
    · obtain ⟨hassignment, hblocks, htime⟩ := h.batch k member hnumber
      have hturn := h.turn member hnumber ready
      have hnone : k.stage.isJoining = false → ∀ w ∈ e.workers, w.job ≠ job :=
        hnumber ▸ hwf.no_workers member
      have hserved := hblocks.executeTurn hturn hnone
      exact ⟨hassignment, hserved.frame ⟨fun _ _ => Iff.rfl, .nothing rfl⟩ rfl,
        htime.executeTurn hturn⟩
    · obtain ⟨hassignment, hblocks, htime⟩ := h.batch j hold hnumber
      have hother : k.number ≠ job := fun hsame => hne (hnumber.trans hsame.symm)
      exact ⟨hassignment,
        hblocks.frame (serveJob_elsewhere hwf h.regular.suited member ready hother) hdesk, htime⟩
  | @tick time quiet due =>
    intro j hj hnumber
    obtain ⟨hassignment, hblocks, htime⟩ := h.batch j hj hnumber
    refine ⟨hassignment, hblocks.frame ⟨fun _ _ => Iff.rfl, .nothing rfl⟩ rfl, ?_⟩
    exact htime.tick fun t ht => (firstTurn_spec due).2.2 j hj t ht

theorem AtRest.executing (hrest : e.AtRest) {assignments : List (Nat × Assignment P)} {i wait : Nat}
    (hassigned : assignments[i]? = some (wait, .execute tasks)) :
    Executing (e.nextNumber + i) tasks (e.now + wait) (e.addJobs assignments).unturned := by
  refine ⟨hrest.regular assignments, ?_⟩
  intro j hj hnumber
  have hclear := hrest.clear hj tasks
  obtain rfl := hrest.newcomer hassigned hj hnumber
  refine ⟨rfl, .arriving hclear, .arriving ?_⟩
  rw [addJobs_eq]
  exact Nat.le_add_right _ _

end Moves

/-! ### Pauses -/

section Pauses

variable {e e' : Engine P R} {job begin limit resume : Nat} {tasks : List (BatchTask P)}

/-- A call that is made in a turn of a worker is that for its own task. -/
theorem serveWorker_called {w : Worker P R} (hready : w.isReady e.limiter e.now = true)
    {y : Entry P R} (hy : y ∈ (e.serveWorker w).journal) {q inFlight : Nat} {payload : P}
    (hevent : y.event = .singleCalled job q payload inFlight) :
    y ∈ e.journal ∨ y.time = e.now ∧ w.job = job ∧ w.position = q := by
  have hmem : y ∈ (e.workerTurn w).1.journal := hy
  rcases workerTurn_traffic e hready with ⟨inFlight', hjournal, _, _⟩ |
    ⟨answer, r, wall, hjournal, _⟩ | ⟨haside, _⟩
  · rw [hjournal] at hmem
    rcases List.mem_cons.mp hmem with rfl | hold
    · obtain ⟨hjob, hposition, _, _⟩ := Event.singleCalled.inj hevent
      exact Or.inr ⟨rfl, hjob, hposition⟩
    · exact Or.inl hold
  · rw [hjournal] at hmem
    rcases List.mem_cons.mp hmem with rfl | hmem
    · cases hevent
    · rcases List.mem_cons.mp hmem with rfl | hold
      · cases hevent
      · exact Or.inl hold
  · by_cases hjob : w.job = job
    · rcases haside.mem hmem with hold | hnew
      · exact Or.inl hold
      · rw [hevent] at hnew
        exact absurd hjob.symm (hnew.job_ne rfl)
    · have hother : Adds (fun event => ∀ orders, Speaks w.job orders event) e (e.workerTurn w).1 :=
        workerTurn_speaks e w
      rcases hother.mem hmem with hold | hnew
      · exact Or.inl hold
      · have hown := (hnew []).own
        rw [hevent] at hown
        exact absurd hown.symm hjob

/-- The job itself makes no call for a task of the batch, nor does any other job. -/
theorem Executing.serveJob_called (h : Executing job tasks begin e) {k : Job P R} (hk : k ∈ e.jobs)
    (hready : k.isReady e = true) {y : Entry P R} (hy : y ∈ (e.serveJob k).journal)
    {q inFlight : Nat} {payload : P} (hevent : y.event = .singleCalled job q payload inFlight) :
    y ∈ e.journal := by
  by_cases hnumber : k.number = job
  · have haside : Adds (Aside job) e (e.serveJob k) := (h.turn hk hnumber hready).aside
    refine (haside.mem hy).resolve_right fun hnew => ?_
    rw [hevent] at hnew
    exact hnew.job_ne rfl rfl
  · have helse :=
      serveJob_elsewhere h.regular.reached.wellFormed h.regular.suited hk hready hnumber
    refine (helse.journal.mem hy).resolve_right fun hnew => ?_
    rw [hevent] at hnew
    exact hnew rfl

/-- From this stage, no call behind the limit is made before the clock shows the time to resume. -/
def HoldsBack (limit resume now : Nat) : Stage P R → Prop
  | .joining _ run => run.position ≤ limit ∨ resume ≤ now
  | .pausing _ _ due => resume ≤ due
  | .finished _ _ => True
  | _ => False

theorem HoldsBack.later {now time : Nat} (hle : now ≤ time) {stage : Stage P R}
    (h : HoldsBack limit resume now stage) : HoldsBack limit resume time stage := by
  cases stage with
  | joining attempts run => exact h.imp id fun hover => Nat.le_trans hover hle
  | pausing attempts run due => exact h
  | finished time' ending => trivial
  | _ => exact h

/-- After a chunk the pause comes first. -/
theorem HoldsBack.executeTurn {stage : Stage P R} {result : Engine P R × Stage P R}
    (h : HoldsBack limit resume e.now stage)
    (hpause : resume ≤ e.now + e.desk.executor.chunkPause)
    (hturn : ExecuteTurn e job tasks stage result) : HoldsBack limit resume e.now result.2 := by
  cases hturn with
  | begins some valid admitted => exact h.elim
  | declines paper empty => exact h.elim
  | @collects attempts run w found =>
    have hposition := (noteOutcome_position run w.index w.outcome?).1
    exact h.imp (fun hle => hposition.trans_le hle) id
  | pauses none some => exact hpause
  | reopens none some pauseless =>
    rw [pauseless] at hpause
    exact Or.inr hpause
  | finishes none last => trivial
  | resumes some rested => exact Or.inr (Nat.le_trans h rested)

/-- A batch of which nothing behind the limit has been called before the time to resume, nor will be. -/
structure Resting (job limit resume : Nat) (e : Engine P R) : Prop where
  called : ∀ y ∈ e.journal, ∀ q payload inFlight, y.event = .singleCalled job q payload inFlight →
    limit ≤ q → resume ≤ y.time
  back : ∀ j ∈ e.jobs, j.number = job → HoldsBack limit resume e.now j.stage

/-- **A batch whose chunk is not yet closed rests for the whole pause after it.** -/
theorem Move.resting (hmove : Move e e') (hexecuting : Executing job tasks begin e)
    (hpause : resume ≤ e.now + e.desk.executor.chunkPause) (h : Resting job limit resume e) :
    Resting job limit resume e' := by
  have hwf := hexecuting.regular.reached.wellFormed
  have hnow := hmove.now_le hwf
  cases hmove with
  | @worker w member ready =>
    have hjobs : (e.serveWorker w).jobs = e.jobs := (workerTurn_house e w).jobs
    refine ⟨?_, fun j hj hnumber => (h.back j (hjobs ▸ hj) hnumber).later hnow⟩
    intro y hy q payload inFlight hevent hbehind
    rcases serveWorker_called ready hy hevent with hold | ⟨htime, hown, hposition⟩
    · exact h.called y hold q payload inFlight hevent hbehind
    · -- The worker is of the chunk at work, so that this chunk has begun when the pause was over.
      obtain ⟨j, hj, hnumber, attempts, run, hstage⟩ := hexecuting.employer member hown
      obtain ⟨hbooked, hblocks⟩ := hexecuting.booked hj hnumber hstage
      have hback := h.back j hj hnumber
      rw [hstage] at hback
      have hbefore := (hblocks.serveWorker hwf hbooked member hown ready).1
      rw [htime]
      exact hback.resolve_left (by omega)
  | @job k member ready =>
    constructor
    · intro y hy q payload inFlight hevent
      have hold := hexecuting.serveJob_called member ready hy hevent
      exact h.called y hold q payload inFlight hevent
    · intro j hj hnumber
      rcases mem_serveJob hwf member ready hj with rfl | ⟨hold, _⟩
      · have hturn := hexecuting.turn member hnumber ready
        exact ((h.back k member hnumber).executeTurn hpause hturn).later hnow
      · exact (h.back j hold hnumber).later hnow
  | tick quiet due => exact ⟨h.called, fun j hj hnumber => (h.back j hj hnumber).later hnow⟩

theorem Executing.resting (h : Executing job tasks begin e) {w : Worker P R} (hw : w ∈ e.workers)
    (hjob : w.job = job) (resume : Nat) :
    Resting job ((w.position / e.chunkSize + 1) * e.chunkSize) resume e := by
  have hwf := h.regular.reached.wellFormed
  obtain ⟨j, hj, hnumber, attempts, run, hstage⟩ := h.employer hw hjob
  obtain ⟨_, hblocks⟩ := h.booked hj hnumber hstage
  cases hblocks with
  | joining some cut chunk seats singly =>
    have hposition := cut.position.trans_le (Nat.min_le_left _ _)
    rw [seats.seat w hw hjob]
    constructor
    · intro y hy q payload inFlight hevent hbehind
      have hbefore := (singly.sent.called y hy q payload inFlight hevent).1
      omega
    · intro k hk hknumber
      rw [hwf.job_unique hk hj (hknumber.trans hnumber.symm), hstage]
      exact Or.inl hposition

/-- **While a worker is there, and for the whole pause after it, later blocks are not called.** -/
theorem Executing.later_blocks_wait (h : Executing job tasks begin e) (hcourse : Course e e')
    {w : Worker P R} (hw : w ∈ e.workers) (hjob : w.job = job) {y : Entry P R} (hy : y ∈ e'.journal)
    {q inFlight : Nat} {payload : P} (hevent : y.event = .singleCalled job q payload inFlight)
    (hlater : w.position / e.chunkSize < q / e.chunkSize) :
    e.now + e.desk.executor.chunkPause ≤ y.time := by
  have hkept := Course.keeps (e := e) (I := fun e' => Executing job tasks begin e' ∧
    e'.desk = e.desk ∧ e.now ≤ e'.now ∧ Resting job ((w.position / e.chunkSize + 1) * e.chunkSize)
      (e.now + e.desk.executor.chunkPause) e') ?_ hcourse
    ⟨h, rfl, Nat.le_refl _, h.resting hw hjob _⟩
  · obtain ⟨_, _, _, hresting⟩ := hkept
    exact hresting.called y hy q payload inFlight hevent
      ((Nat.le_div_iff_mul_le (chunkSize_pos e)).mp hlater)
  · -- A later move comes no earlier than `e.now`, so that the pause after it only ends later.
    rintro e₁ e₂ hmove ⟨hexecutes, hdesk, hnow, hrests⟩
    have hwf := hexecutes.regular.reached.wellFormed
    refine ⟨hmove.executing hexecutes, (hmove.desk hwf).trans hdesk,
      Nat.le_trans hnow (hmove.now_le hwf), hmove.resting hexecutes ?_ hrests⟩
    rw [hdesk]
    exact Nat.add_le_add_right hnow _

end Pauses

/-! ### All of it -/

/-- A batch that is executed in blocks of this size is at work on one of them. -/
structure AtBlock (e : Engine P R) (job size : Nat) (tasks : List (BatchTask P)) (run : BatchRun P R)
    (block : Nat) : Prop where
  /-- The block is the piece of the list with this number, and what remains lies behind it. -/
  piece : (chunksOf size tasks)[block]?.map (·.map (·.index)) = some run.chunk
  remaining : run.remaining = tasks.drop ((block + 1) * max 1 size)
  /-- Whoever is at work has a task of this block. -/
  workers : ∀ w ∈ e.workers, w.job = job →
    w.position / max 1 size = block ∧ tasks[w.position]? = some ⟨w.index, w.payload⟩
  /-- Every task of an earlier block has come to its outcome. -/
  before : ∀ q t, tasks[q]? = some t → q / max 1 size < block →
    ∃ o, run.outcomes[t.index]? = some o ∧ Fate e job q t.payload o
  /-- Nothing of a later block has been called. -/
  behind : ∀ y ∈ e.journal, ∀ q payload inFlight, y.event = .singleCalled job q payload inFlight →
    q / max 1 size ≤ block

/-- The calls of a batch so far: each is for its own task, and none is made twice. -/
structure CalledOnce (events : List (Entry P R)) (job : Nat) (tasks : List (BatchTask P)) : Prop where
  own : ∀ y ∈ events, ∀ q payload inFlight, y.event = .singleCalled job q payload inFlight →
    ∃ t, tasks[q]? = some t ∧ t.payload = payload
  once : ∀ q, events.countP (·.event.calls job q) ≤ 1

section Batch

variable {start e : Engine P R} {job begin : Nat} {tasks : List (BatchTask P)}

theorem InBlocks.calledOnce {stage : Stage P R} (h : InBlocks e job tasks stage)
    {p : Event P R → Prop} (hadds : Adds p start e) :
    CalledOnce (e.since start.journal.length) job tasks := by
  obtain ⟨hspare, hordered⟩ := h.called
  obtain ⟨added, hjournal, _⟩ := hadds
  rw [since_eq hjournal]
  constructor
  · intro y hy
    refine hordered y ?_
    rw [hjournal]
    exact List.mem_append_left _ (List.mem_reverse.mp hy)
  · intro q
    rw [Spare, hjournal, List.pairwise_append] at hspare
    refine countP_le_one ((List.pairwise_reverse.mpr hspare.1).imp ?_)
    rintro earlier later hnot ⟨hearlier, hlater⟩
    exact hnot (bars_of_calls hearlier hlater)

theorem Booked.fate_before {run : BatchRun P R} (h : Booked e job tasks run) {block : Nat}
    (hcut : Cut e.chunkSize tasks (block + 1) run)
    (hchunk : run.chunk = (chunkAt e.chunkSize block tasks).map (·.index)) {q : Nat}
    {t : BatchTask P} (ht : tasks[q]? = some t) (hearlier : q / e.chunkSize < block) :
    ∃ o, run.outcomes[t.index]? = some o ∧ Fate e job q t.payload o := by
  have hposition : q < run.position := by
    rw [hcut.position]
    exact lt_min ((Nat.div_lt_iff_lt_mul (chunkSize_pos e)).mp (Nat.lt_succ_of_lt hearlier))
      (List.getElem?_eq_some_iff.mp ht).1
  have hrange : t.index < run.outcomes.length := by
    rw [h.noted.length]
    exact (checkTasks_ok h.valid).1 t (List.mem_of_getElem? ht)
  have hplace := List.getElem?_eq_getElem hrange
  refine ⟨_, hplace, (h.noted.fates q t _ ht hplace).resolve_left fun hpending => ?_⟩
  -- An open place belongs to a task of the chunk at work, and this one lies before it.
  have hmissing := isMissing_iff.mpr (hplace.trans (congrArg Option.some hpending))
  have hmem := (h.covered q t hposition ht hmissing).1
  rw [hchunk] at hmem
  exact absurd (le_div_of_mem_chunkAt h.valid (chunkSize_pos e) ht hmem)
    (Nat.not_le_of_lt hearlier)

theorem InBlocks.atBlock {attempts : Nat} {run : BatchRun P R}
    (h : InBlocks e job tasks (.joining attempts run)) (hbooked : Booked e job tasks run) :
    ∃ block, AtBlock e job e.desk.executor.chunkSize tasks run block := by
  cases h with
  | @joining _ block _ some cut chunk seats singly =>
    have hsize : max 1 e.desk.executor.chunkSize = e.chunkSize := rfl
    refine ⟨block, ?_, cut.remaining, ?_, ?_, ?_⟩
    · rw [getElem?_chunksOf, hsize, if_pos some, Option.map_some, chunk]
    · exact fun w hw hjob => ⟨seats.seat w hw hjob, hbooked.staff w hw hjob⟩
    · exact fun q t ht hearlier => hbooked.fate_before cut chunk ht hearlier
    · intro y hy q payload inFlight hevent
      have hbefore := (singly.sent.called y hy q payload inFlight hevent).1
      rw [cut.position] at hbefore
      have hlt := Nat.lt_of_lt_of_le hbefore (Nat.min_le_left _ _)
      exact Nat.le_of_lt_succ ((Nat.div_lt_iff_lt_mul (chunkSize_pos e)).mpr hlt)

theorem InTime.present_le {c : ExecutorConfig} {total : Nat} {j : Job P R}
    (h : InTime c begin total e.now j.stage) : e.presentOf j ≤ begin + c.longest total := by
  obtain ⟨number, a, stage, turn⟩ := j
  cases h with
  | arriving timely => exact Nat.le_trans timely (Nat.le_add_right _ _)
  | joining timely ends => exact Nat.le_trans timely (Nat.le_trans (Nat.le_add_right _ _) ends)
  | pausing timely ends => exact Nat.le_trans timely (Nat.le_trans (Nat.le_add_right _ _) ends)
  | finished ends => exact ends

end Batch

/-- **The blocks of a batch follow one another, and the batch comes to an end in time.** Let a batch be
executed as one of several assignments, whatever the service does. On every course, the tasks at work are
those of one block of the list, all tasks of earlier blocks have come to their outcomes, nothing of a later
block has been called, and no task has been called twice. No call of a later block is made within the pause
after an instant at which a task of an earlier one was still there. And from its beginning to its end the
batch takes no more than its blocks and the pauses between them may take. -/
theorem blocks_follow_one_another {e : Engine P R} (hrest : e.AtRest)
    {assignments : List (Nat × Assignment P)} {i wait : Nat} {tasks : List (BatchTask P)}
    (hassigned : assignments[i]? = some (wait, .execute tasks)) :
    let x := e.desk.executor
    let size := max 1 x.chunkSize
    let blocks := (tasks.length + size - 1) / size
    let limit := blocks * (x.permitTimeout + x.taskTimeout) + (blocks - 1) * x.chunkPause
    let job := e.nextNumber + i
    (chunksOf x.chunkSize tasks).flatten = tasks ∧
    (∀ e', Course (e.addJobs assignments).unturned e' → ∃ j ∈ e'.jobs,
      j.number = job ∧ j.assignment = .execute tasks ∧
      (∀ attempts run, j.stage = .joining attempts run →
        ∃ block, AtBlock e' job x.chunkSize tasks run block) ∧
      CalledOnce (e'.since e.journal.length) job tasks ∧
      e'.presentOf j ≤ e.now + wait + limit) ∧
    (∀ e₁ e₂, Course (e.addJobs assignments).unturned e₁ → Course e₁ e₂ →
      ∀ w ∈ e₁.workers, w.job = job → ∀ y ∈ e₂.journal, ∀ q payload inFlight,
      y.event = .singleCalled job q payload inFlight → w.position / size < q / size →
      e₁.now + x.chunkPause ≤ y.time) ∧
    ∃ time ending, (e.perform assignments).2[i]? = some (some (time, ending)) ∧
      time ≤ e.now + wait + limit ∧
      CalledOnce ((e.perform assignments).1.since e.journal.length) job tasks := by
  intro x size blocks limit job
  have hwf := hrest.wellFormed assignments
  have hstart : (e.addJobs assignments).unturned.desk = e.desk ∧
      (e.addJobs assignments).unturned.journal = e.journal := by
    rw [addJobs_eq]
    exact ⟨rfl, rfl⟩
  have hdesk {e' : Engine P R} (hcourse : Course (e.addJobs assignments).unturned e') :
      e'.desk = e.desk := (hcourse.desk hwf).trans hstart.1
  have hexecuting {e' : Engine P R} (hcourse : Course (e.addJobs assignments).unturned e') :
      Executing job tasks (e.now + wait) e' :=
    hcourse.keeps Move.executing (hrest.executing hassigned)
  have hbatch {e' : Engine P R} (hcourse : Course (e.addJobs assignments).unturned e') :
      ∃ j, e'.jobs[i]? = some j ∧ j.number = job ∧ j.assignment = .execute tasks ∧
        (∀ attempts run, j.stage = .joining attempts run →
          ∃ block, AtBlock e' job x.chunkSize tasks run block) ∧
        CalledOnce (e'.since e.journal.length) job tasks ∧
        e'.presentOf j ≤ e.now + wait + limit := by
    obtain ⟨j, hj, hnumber, hassignment⟩ := hrest.exists_job hcourse hassigned
    have hmem := List.mem_of_getElem? hj
    obtain ⟨_, hblocks, htime⟩ := (hexecuting hcourse).batch j hmem hnumber
    have hpresent := htime.present_le
    have hwhole := Course.whole hcourse hwf (hrest.suited assignments)
    have hcalled := hblocks.calledOnce hwhole
    rw [hdesk hcourse] at hpresent
    rw [hstart.2] at hcalled
    refine ⟨j, hj, hnumber, hassignment, ?_, hcalled, hpresent⟩
    intro attempts run hstage
    obtain ⟨hbooked, hjoining⟩ := (hexecuting hcourse).booked hmem hnumber hstage
    have hat := hjoining.atBlock hbooked
    rwa [hdesk hcourse] at hat
  refine ⟨flatten_chunksOf _ _, ?_, ?_, ?_⟩
  · intro e' hcourse
    obtain ⟨j, hj, hall⟩ := hbatch hcourse
    exact ⟨j, List.mem_of_getElem? hj, hall⟩
  · intro e₁ e₂ hcourse hlater w hw hjob y hy q payload inFlight hevent hblock
    have hwaits := (hexecuting hcourse).later_blocks_wait hlater hw hjob hy hevent
    rw [chunkSize, hdesk hcourse] at hwaits
    exact hwaits hblock
  · obtain ⟨done, hcourse, hsettled, hwf', hdone, hendings⟩ := perform_course hrest assignments
    obtain ⟨j, hj, _, hassignment, _, hcalled, hpresent⟩ := hbatch hcourse
    obtain ⟨time, ending, hstage⟩ :=
      hsettled.finished hwf' (List.mem_of_getElem? hj) (by rw [hassignment]; rfl)
    have hending : j.ending? = some (time, ending) := by rw [Job.ending?, hstage]
    have hsince : (e.perform assignments).1.since e.journal.length = done.since e.journal.length :=
      congrArg (·.since e.journal.length) hdone
    refine ⟨time, ending, ?_, ?_, hsince ▸ hcalled⟩
    · rw [hendings, List.getElem?_map, hj, Option.map_some, hending]
    · simpa only [presentOf, hending] using hpresent

def singleStarts (events : List (Entry P R)) : List (Nat × Nat) :=
  events.filterMap fun x =>
    match x.event with
    | .singleCalled _ position _ _ => some (x.time, position)
    | _ => none

/-- Blocks of two, and a pause of three between them. The batch begins at two. Nothing ever comes back from
its first task, which is cut off at eight, so that the second block begins at eleven. -/
theorem hung_task_delays_next_block :
    let desk : Desk (Conduct (Except DownstreamFailure Nat)) Nat :=
      .forTasks Nat { chunkSize := 2, chunkPause := 3, permitTimeout := 4, taskTimeout := 6 }
    let e := begun desk {} {} none [] 0
    let tasks := BatchTask.ofPayloads
      [Conduct.hangs, .answers 2 (Except.ok 7), .answers 1 (Except.ok 8)]
    let result := e.perform [(2, .execute tasks)]
    e.AtRest ∧ (chunksOf 2 tasks).map (·.map (·.index)) = [[0, 1], [2]] ∧
      singleStarts (result.1.since 0) = [(2, 0), (2, 1), (11, 2)] ∧
      CalledOnce (result.1.since 0) 0 tasks ∧
      ∃ ending, result.2[0]? = some (some (12, ending)) ∧
        12 ≤ 0 + 2 + (2 * (4 + 6) + (2 - 1) * 3) := by
  intro desk e tasks result
  have hrest : e.AtRest := begun_atRest _ _ _ _ _ _
  have hassigned : [(2, Assignment.execute tasks)][0]? = some (2, .execute tasks) := rfl
  obtain ⟨time, ending, hresult, hlimit, hcalled⟩ :=
    (blocks_follow_one_another hrest hassigned).2.2.2
  have htime : (result.2[0]?).map (·.map (·.1)) = some (some 12) := by decide +kernel
  rw [hresult] at htime
  obtain rfl : time = 12 := Option.some.inj (Option.some.inj htime)
  have hblocks : (3 + max 1 2 - 1) / max 1 2 = 2 := by decide
  have hspan : 12 ≤ 0 + 2 + ((3 + max 1 2 - 1) / max 1 2 * (4 + 6) +
      ((3 + max 1 2 - 1) / max 1 2 - 1) * 3) := hlimit
  rw [hblocks] at hspan
  exact ⟨hrest, by decide +kernel, by decide +kernel, hcalled, ending, hresult, hspan⟩

end Engine

end OrderAdmission
