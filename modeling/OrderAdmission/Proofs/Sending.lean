import OrderAdmission.Proofs.Floor

/-!
# What sending can do

A job that begins, or that waits for a bulk call, has three ways to go on: it waits elsewhere, it
ends, or it opens the first chunk of its tasks. `Sends` says so for every turn of such a job at once,
together with what is known of the new stage and how many turns it can still take.

The bounds are the ones by which the engine's own measure of work goes down.
-/
namespace OrderAdmission

variable {P R : Type}

theorem length_piecesOf_le {α : Type} (n : Nat) (xs : List α) :
    (piecesOf n xs).length ≤ xs.length := by
  fun_induction piecesOf n xs with
  | case1 => simp
  | case2 x xs ih =>
    simp only [List.length_cons, List.length_drop] at ih ⊢
    omega

theorem BatchResult.length_successes_le (r : BatchResult R) :
    r.successes.length ≤ r.outcomes.length := by
  unfold BatchResult.successes
  refine Nat.le_trans (List.length_filterMap_le _ _) ?_
  exact Nat.le_of_eq List.length_zipIdx

def WriteRun.work (w : WriteRun) : Nat :=
  (Stage.writing (P := Unit) (R := Unit) none w).work 0 (.hold none)

theorem WriteRun.work_pos (w : WriteRun) : 2 * w.remaining.length < w.work := by
  obtain ⟨total, limit, remaining, made, staged, step⟩ := w
  cases step <;> simp [WriteRun.work, Stage.work, Job.work]

def WriteTurn.work : WriteTurn → Nat
  | .goesOn run => run.work
  | .ends _ => 0

namespace Engine

/-! ### Hearing of a bulk call -/

/-- The engine in which a job has noted what became of its bulk call, unless that broke off. -/
def heardBulk (e : Engine P R) (job : Nat) (run : BulkRun R) : Engine P R :=
  match run.call.reply? e.now with
  | some none => e
  | some (some answer) => e.note (.bulkEnded job (some answer))
  | none => e.note (.bulkEnded job none)

/-- The engine in which a job has noted what it has been waiting for. -/
def heard (e : Engine P R) (j : Job P R) : Engine P R :=
  match j.stage with
  | .calling run => e.heardBulk j.number run
  | _ => e

theorem heard_eq (e : Engine P R) (j : Job P R) :
    e.heard j = { e with journal := (e.heard j).journal } := by
  unfold heard
  split
  · unfold heardBulk
    split <;> rfl
  · rfl

section Heard

variable (e : Engine P R) (j : Job P R)

@[simp] theorem heard_desk : (e.heard j).desk = e.desk := by rw [heard_eq]
@[simp] theorem heard_now : (e.heard j).now = e.now := by rw [heard_eq]
@[simp] theorem heard_limiter : (e.heard j).limiter = e.limiter := by rw [heard_eq]
@[simp] theorem heard_workers : (e.heard j).workers = e.workers := by rw [heard_eq]
@[simp] theorem heard_jobs : (e.heard j).jobs = e.jobs := by rw [heard_eq]
@[simp] theorem heard_nextNumber : (e.heard j).nextNumber = e.nextNumber := by rw [heard_eq]
@[simp] theorem heard_singleCalls : (e.heard j).singleCalls = e.singleCalls := by rw [heard_eq]

theorem heard_faithful (h : e.cache.Faithful) : (e.heard j).cache.Faithful := by
  rw [heard_eq]
  exact h

end Heard

/-! ### Ways to go on -/

/-- The job turns to something else than tasks: the floor is as it was. -/
structure Leaves (e : Engine P R) (a : Assignment P) (bound : Nat)
    (result : Engine P R × Stage P R) : Prop where
  floor : SameFloor e result.1
  away : result.2.isAway = true
  sound : result.2.Sound e.desk.fallback.retry.maxRetries a
  work : result.2.work e.desk.fallback.retry.maxRetries a ≤ bound

/-- The job turns to something else than tasks, or opens the first chunk of its tasks. -/
inductive Sends (e : Engine P R) (job : Nat) (a : Assignment P) (bound : Nat) :
    Engine P R × Stage P R → Prop where
  | leaves {result} (h : Leaves e a bound result) : Sends e job a bound result
  | opens {e' : Engine P R} {attempts : Nat} (floor : SameFloor e e') (some : a.tasks ≠ [])
      (valid : checkTasks a.tasks = .ok ()) (work : batchWork a.tasks.length a.load ≤ bound) :
      Sends e job a bound (e'.openChunk job attempts (.whole a.tasks))

theorem Leaves.mono {e : Engine P R} {a : Assignment P} {bound bound' : Nat}
    {result : Engine P R × Stage P R} (h : Leaves e a bound result) (hle : bound ≤ bound') :
    Leaves e a bound' result :=
  ⟨h.floor, h.away, h.sound, Nat.le_trans h.work hle⟩

theorem Leaves.after {e e' : Engine P R} {a : Assignment P} {bound : Nat}
    {result : Engine P R × Stage P R} (h : Leaves e' a bound result) (hfloor : SameFloor e e') :
    Leaves e a bound result := by
  refine ⟨hfloor.trans h.floor, h.away, ?_, ?_⟩
  · rw [← hfloor.desk]
    exact h.sound
  · rw [← hfloor.desk]
    exact h.work

theorem Sends.mono {e : Engine P R} {job : Nat} {a : Assignment P} {bound bound' : Nat}
    {result : Engine P R × Stage P R} (h : Sends e job a bound result) (hle : bound ≤ bound') :
    Sends e job a bound' result := by
  cases h with
  | leaves h => exact Sends.leaves (h.mono hle)
  | opens floor some valid work => exact Sends.opens floor some valid (Nat.le_trans work hle)

theorem Sends.after {e e' : Engine P R} {job : Nat} {a : Assignment P} {bound : Nat}
    {result : Engine P R × Stage P R} (h : Sends e' job a bound result)
    (hfloor : SameFloor e e') : Sends e job a bound result := by
  cases h with
  | leaves h => exact Sends.leaves (h.after hfloor)
  | opens floor some valid work => exact Sends.opens (hfloor.trans floor) some valid work

/-! ### Endings and status writes -/

theorem conclude_leaves (e : Engine P R) (a : Assignment P) (ending : Ending R)
    (haway : (Stage.finished (P := P) e.now ending).isAway = true) :
    Leaves e a 0 (e.conclude a ending) := by
  refine ⟨conclude_floor e a ending, ?_, ?_, ?_⟩
  · rw [conclude_eq]
    exact haway
  · rw [conclude_eq]
    trivial
  · rw [conclude_eq]
    exact Nat.le_refl 0

theorem followWrite_leaves (a : Assignment P) (result : Option (BatchResult R))
    (turn : Engine P R × WriteTurn) :
    Leaves turn.1 a turn.2.work (followWrite a result turn) := by
  rcases turn with ⟨e, run | crash | error | rows⟩
  · exact ⟨SameFloor.refl e, rfl, trivial, Nat.le_refl _⟩
  · exact conclude_leaves e a _ rfl
  · exact conclude_leaves e a _ rfl
  · cases result <;> exact conclude_leaves e a _ rfl

theorem openWrite_work (e : Engine P R) (job : Nat) (updates : List StatusUpdate) :
    (e.openWrite job updates).2.work ≤ 2 * updates.length + 3 := by
  have hlength := length_piecesOf_le (e.desk.persistence.chunkSize - 1) updates
  simp only [openWrite]
  split
  · exact Nat.zero_le _
  · split
    · exact Nat.zero_le _
    · split
      · simp only [WriteTurn.work, WriteRun.work, Stage.work, Job.work, chunksOf]
        omega
      · simp only [WriteTurn.work, WriteRun.work, Stage.work, Job.work, chunksOf]
        omega

theorem endWrite_work (e : Engine P R) (job : Nat)
    (ending : Except Crash (Except GateError Nat)) : (e.endWrite job ending).2.work = 0 := by
  simp only [endWrite]
  split <;> rfl

theorem nextStatement_work (e : Engine P R) (job : Nat) (w : WriteRun) :
    (e.nextStatement job w).2.work ≤ 2 * w.remaining.length + 2 := by
  simp only [nextStatement]
  split
  · exact Nat.le_refl _
  · exact Nat.le_refl _
  · rw [endWrite_work]
    exact Nat.zero_le _
  · rename_i hremaining _
    simp [WriteTurn.work, WriteRun.work, Stage.work, Job.work, hremaining]

theorem rollBack_work (e : Engine P R) (job : Nat) (w : WriteRun) (error : GateError) :
    (e.rollBack job w error).2.work ≤ 2 * w.remaining.length + 1 := by
  simp only [rollBack]
  split
  · rw [endWrite_work]
    exact Nat.zero_le _
  · exact Nat.le_refl _

theorem afterStatement_work (e : Engine P R) (job : Nat) (w : WriteRun) (counts : List Nat) :
    (e.afterStatement job w counts).2.work ≤ 2 * w.remaining.length + 1 := by
  simp only [afterStatement]
  split
  · rename_i hremaining
    simp only [nextStatement, hremaining]
    split
    · contradiction
    · contradiction
    · rw [endWrite_work]
      exact Nat.zero_le _
    · simp [WriteTurn.work, WriteRun.work, Stage.work, Job.work]
  · rename_i updates rest hremaining
    split
    · exact rollBack_work e job w _
    · have hwork := nextStatement_work e job { w with remaining := rest, made := w.made + 1 }
      rw [hremaining, List.length_cons]
      simp only at hwork
      omega

theorem writeTurn_work (e : Engine P R) (job : Nat) (w : WriteRun) :
    (e.writeTurn job w).2.work < w.work := by
  have hpos := w.work_pos
  have hend (ending : Except Crash (Except GateError Nat)) :
      (e.endWrite job ending).2.work < w.work := by
    rw [endWrite_work]
    omega
  obtain ⟨total, limit, remaining, made, staged, step⟩ := w
  cases step with
  | queued =>
    simp only [writeTurn]
    split
    · exact Nat.lt_succ_of_le (nextStatement_work e job _)
    · exact hend _
  | opening call =>
    simp only [writeTurn]
    split
    · exact Nat.lt_succ_of_le (nextStatement_work e job _)
    · exact hend _
    · exact hend _
    · exact hend _
  | stating due =>
    simp only [writeTurn]
    split
    · split
      · exact hend _
      · exact Nat.lt_succ_of_le (afterStatement_work e job _ _)
    · exact hend _
  | asking call =>
    simp only [writeTurn]
    split
    · exact Nat.lt_succ_of_le (afterStatement_work e job _ _)
    · exact Nat.lt_succ_of_le (rollBack_work e job _ _)
    · exact hend _
    · exact hend _
  | committing call =>
    simp only [writeTurn]
    split <;> exact hend _
  | rollingBack error call =>
    simp only [writeTurn]
    split <;> exact hend _

theorem length_updatesFor (e : Engine P R) (orders : List P) (taken : List (Nat × R))
    {updates : List StatusUpdate} {cache : StatusCache}
    (h : e.updatesFor orders taken = .ok (updates, cache)) : updates.length = taken.length := by
  induction taken generalizing e updates cache with
  | nil =>
    simp only [updatesFor, Except.ok.injEq, Prod.mk.injEq] at h
    rw [← h.1]
    rfl
  | cons first rest ih =>
    obtain ⟨i, answer⟩ := first
    simp only [updatesFor] at h
    split at h
    · cases h
    · split at h
      · cases h
      · rename_i hrest
        simp only [Except.ok.injEq, Prod.mk.injEq] at h
        rw [← h.1, List.length_cons, List.length_cons, ih _ hrest]

theorem placeOrders_leaves (e : Engine P R) (job : Nat) (a : Assignment P)
    (result : BatchResult R) :
    Leaves e a (2 * result.outcomes.length + 3) (e.placeOrders job a result) := by
  rw [placeOrders_eq]
  split
  · exact (conclude_leaves e a _ rfl).mono (Nat.zero_le _)
  · rename_i updates cache hupdates
    have hlength := length_updatesFor e a.orders result.successes hupdates
    have hsuccesses := result.length_successes_le
    have hwork := openWrite_work (e.setCache cache) job updates
    have hcache := setCache_floor e cache (updatesFor_faithful e _ _ hupdates)
    have hfloor := hcache.trans (openWrite_floor (e.setCache cache) job updates)
    exact ((followWrite_leaves a (some result) _).after hfloor).mono (by omega)

theorem answered_leaves (e : Engine P R) (job : Nat) (a : Assignment P) (attempts : Nat)
    (result : BatchResult R) (hlength : result.outcomes.length ≤ a.load) :
    Leaves e a (writeWork a.load) (e.answered job a attempts result) := by
  cases a with
  | process orders =>
    refine (placeOrders_leaves e job (.process orders) result).mono ?_
    simp only [writeWork]
    omega
  | submit orders => exact (conclude_leaves e _ _ rfl).mono (Nat.zero_le _)
  | hold stay => exact (conclude_leaves e _ _ rfl).mono (Nat.zero_le _)
  | execute tasks => exact (conclude_leaves e _ _ rfl).mono (Nat.zero_le _)
  | write updates => exact (conclude_leaves e _ _ rfl).mono (Nat.zero_le _)
  | occupy stay => exact (conclude_leaves e _ _ rfl).mono (Nat.zero_le _)

/-! ### The beginning of a batch -/

theorem startBatch_sends (e : Engine P R) (job : Nat) (a : Assignment P) (attempts : Nat)
    (tasks : List (BatchTask P)) (htasks : tasks = a.tasks ∨ tasks = []) :
    Sends e job a (batchWork a.load a.load)
      (followStart job a attempts (e.startBatch job attempts tasks)) := by
  have hwork : writeWork a.load ≤ batchWork a.load a.load := by
    simp only [batchWork]
    omega
  have hend (e' : Engine P R) (ending : Ending R) (hfloor : SameFloor e e')
      (haway : (Stage.finished (P := P) e'.now ending).isAway = true) :
      Sends e job a (batchWork a.load a.load) (e'.conclude a ending) :=
    Sends.leaves (((conclude_leaves e' a ending haway).after hfloor).mono (Nat.zero_le _))
  rw [startBatch_eq]
  split
  · exact Sends.leaves ((answered_leaves e job a attempts .empty (Nat.zero_le _)).mono hwork)
  · rename_i hsome
    have htasks' : tasks = a.tasks := by
      rcases htasks with h | h
      · exact h
      · simp [h] at hsome
    subst htasks'
    split
    · exact hend e _ (SameFloor.refl e) rfl
    · rename_i hvalid
      split
      · exact hend e _ (SameFloor.refl e) rfl
      · rename_i error breaker _
        exact hend (e.setBreaker breaker) _ (setBreaker_floor e breaker) rfl
      · rename_i breaker _
        refine Sends.opens (setBreaker_floor e breaker) (by simpa using hsome) hvalid ?_
        have hle := a.length_tasks_le
        simp only [batchWork]
        omega

theorem ofPayloads_orders (a : Assignment P) :
    BatchTask.ofPayloads a.orders = a.tasks ∨ BatchTask.ofPayloads a.orders = [] := by
  cases a with
  | submit orders => exact Or.inl rfl
  | process orders => exact Or.inl rfl
  | hold stay => exact Or.inr rfl
  | execute tasks => exact Or.inr rfl
  | write updates => exact Or.inr rfl
  | occupy stay => exact Or.inr rfl

theorem sendSingly_sends (e : Engine P R) (job : Nat) (a : Assignment P) (attempts : Nat) :
    Sends e job a (batchWork a.load a.load) (e.sendSingly job a attempts) :=
  startBatch_sends e job a attempts _ (ofPayloads_orders a)

/-! ### Bulk calls -/

theorem callBulk_leaves (e : Engine P R) (job : Nat) (a : Assignment P) (attempt deadline : Nat)
    (hattempt : 1 ≤ attempt) :
    Leaves e a (submissionWork (e.desk.fallback.retry.maxRetries + 1 - attempt) a.load + 1)
      (e.callBulk job a attempt deadline) := by
  simp only [callBulk]
  split
  · exact (conclude_leaves e a _ rfl).mono (Nat.zero_le _)
  · exact ⟨⟨rfl, rfl, rfl, rfl, rfl, rfl, rfl, rfl, rfl, id⟩, rfl, hattempt, Nat.le_refl _⟩

theorem fallBack_sends (e : Engine P R) (job : Nat) (a : Assignment P) (attempts : Nat)
    (failure : DownstreamFailure) :
    Sends e job a (batchWork a.load a.load) (e.fallBack job a attempts failure) := by
  simp only [fallBack]
  split
  · exact Sends.leaves ((conclude_leaves e a _ rfl).mono (Nat.zero_le _))
  · exact sendSingly_sends e job a attempts

theorem batchWork_le_submissionWork (retries load : Nat) :
    batchWork load load ≤ submissionWork retries load := by
  simp only [submissionWork]
  omega

theorem bulkFailed_sends (e : Engine P R) (job : Nat) (a : Assignment P) (run : BulkRun R)
    (failure : DownstreamFailure) (hattempt : 1 ≤ run.attempt) :
    Sends e job a
      (submissionWork (e.desk.fallback.retry.maxRetries + 1 - run.attempt) a.load)
      (e.bulkFailed job a run failure) := by
  have htold := report_floor e job .failure
  have hset (breaker : Breaker) := htold.trans (setBreaker_floor (e.report job .failure) breaker)
  have hle := batchWork_le_submissionWork
    (e.desk.fallback.retry.maxRetries + 1 - run.attempt) a.load
  rw [bulkFailed_eq]
  simp only
  split
  · exact Sends.leaves ((conclude_leaves e a _ rfl).mono (Nat.zero_le _))
  · split
    · exact ((fallBack_sends _ job a run.attempt failure).after htold).mono hle
    · rename_i hretries
      split
      · exact Sends.leaves (((conclude_leaves _ a _ rfl).after htold).mono (Nat.zero_le _))
      · rename_i breaker _
        exact ((fallBack_sends _ job a run.attempt failure).after (hset breaker)).mono hle
      · rename_i breaker _
        split
        · exact ((fallBack_sends _ job a run.attempt failure).after (hset breaker)).mono hle
        · refine Sends.leaves ⟨hset breaker, rfl, ⟨hattempt, ?_⟩, Nat.le_refl _⟩
          omega

theorem bulkTurn_sends (e : Engine P R) (job : Nat) (a : Assignment P) (run : BulkRun R)
    (hattempt : 1 ≤ run.attempt) :
    Sends (e.heardBulk job run) job a
      (submissionWork (e.desk.fallback.retry.maxRetries + 1 - run.attempt) a.load)
      (e.bulkTurn job a run) := by
  have hfailed (answer : Option (BulkAnswer R)) (failure : DownstreamFailure) :=
    bulkFailed_sends (e.note (.bulkEnded job answer)) job a run failure hattempt
  simp only [bulkTurn]
  cases hreply : run.call.reply? e.now with
  | none =>
    simp only [heardBulk, hreply]
    exact hfailed _ _
  | some reply =>
    rcases reply with _ | failure | items
    · simp only [heardBulk, hreply]
      exact Sends.leaves ((conclude_leaves e a _ rfl).mono (Nat.zero_le _))
    · simp only [heardBulk, hreply]
      exact hfailed _ _
    · simp only [heardBulk, hreply]
      split
      · rename_i hcount
        have hlength : (items.map Outcome.ofItem).length ≤ a.load := by
          rw [List.length_map, hcount]
          exact a.length_orders_le
        have hfloor := report_floor (e.note (.bulkEnded job (some (.ok items)))) job .success
        refine Sends.leaves
          (((answered_leaves _ job a run.attempt _ hlength).after hfloor).mono ?_)
        simp only [submissionWork, batchWork]
        omega
      · exact hfailed _ _

/-! ### The beginning of a job -/

theorem startSubmission_sends (e : Engine P R) (job : Nat) (a : Assignment P) :
    Sends e job a (submissionWork (e.desk.fallback.retry.maxRetries + 1) a.load)
      (e.startSubmission job a) := by
  simp only [startSubmission]
  split
  · exact (sendSingly_sends e job a 0).mono (batchWork_le_submissionWork _ _)
  · split
    · exact Sends.leaves ((conclude_leaves e a _ rfl).mono (Nat.zero_le _))
    · split
      · refine Sends.leaves ((callBulk_leaves e job a 1 _ (Nat.le_refl 1)).mono ?_)
        simp only [submissionWork]
        omega
      · exact Sends.leaves ((conclude_leaves e a _ rfl).mono (Nat.zero_le _))

theorem checkOverload_sends (e : Engine P R) (job : Nat) (a : Assignment P) :
    Sends e job a (submissionWork (e.desk.fallback.retry.maxRetries + 1) a.load)
      (e.checkOverload job a) := by
  have hfloor := setDetector_floor e (e.detector.check e.probes.snapshot).2
  simp only [checkOverload]
  split
  · exact Sends.leaves (((conclude_leaves _ a _ rfl).after hfloor).mono (Nat.zero_le _))
  · exact (startSubmission_sends _ job a).after hfloor

theorem startAdmission_sends (e : Engine P R) (job : Nat) (a : Assignment P) :
    Sends e job a (submissionWork (e.desk.fallback.retry.maxRetries + 1) a.load)
      (e.startAdmission job a) := by
  have henter := enterRequest_floor e
  have hset (breaker : Breaker) := henter.trans (setBreaker_floor e.enterRequest breaker)
  rw [startAdmission_eq]
  split
  · exact Sends.leaves ⟨SameFloor.refl e, rfl, trivial, Nat.zero_le _⟩
  · split
    · exact Sends.leaves ⟨SameFloor.refl e, rfl, trivial, Nat.zero_le _⟩
    · split
      · exact Sends.leaves (((conclude_leaves _ a _ rfl).after henter).mono (Nat.zero_le _))
      · rename_i error breaker _
        exact Sends.leaves
          (((conclude_leaves _ a _ rfl).after (hset breaker)).mono (Nat.zero_le _))
      · rename_i breaker _
        exact (checkOverload_sends _ job a).after (hset breaker)

/-- **A job that begins to send leaves the floor alone or opens its first chunk.** -/
theorem startJob_sends (e : Engine P R) (job : Nat) (a : Assignment P)
    (hhold : ∀ stay, a ≠ .hold stay) :
    Sends e job a (submissionWork (e.desk.fallback.retry.maxRetries + 2) a.load)
      (e.startJob job a) := by
  have hretries : submissionWork (e.desk.fallback.retry.maxRetries + 1) a.load ≤
      submissionWork (e.desk.fallback.retry.maxRetries + 2) a.load := by
    simp only [submissionWork]
    omega
  cases a with
  | hold stay => exact absurd rfl (hhold stay)
  | occupy stay =>
    refine Sends.leaves
      ⟨setLedger_floor e _ (Ledger.table_request e.ledger job), rfl, rfl, ?_⟩
    simp only [startJob, Stage.work, Job.work, submissionWork, batchWork, writeWork]
    omega
  | execute tasks =>
    exact (startBatch_sends e job _ 0 tasks (Or.inl rfl)).mono (batchWork_le_submissionWork _ _)
  | submit orders =>
    simp only [startJob]
    split
    · exact Sends.leaves ⟨SameFloor.refl e, rfl, trivial, Nat.zero_le _⟩
    · exact (startSubmission_sends e job _).mono hretries
  | process orders => exact (startAdmission_sends e job _).mono hretries
  | write updates =>
    have hwork := openWrite_work e job updates
    refine Sends.leaves (((followWrite_leaves (.write updates) none _).after
      (openWrite_floor e job updates)).mono ?_)
    have hload : (Assignment.write (P := P) updates).load = updates.length := rfl
    simp only [hload, submissionWork, batchWork, writeWork]
    omega

/-- A turn of a job that has neither to do with permits nor with a batch at work nor with a status
write. -/
theorem jobTurn_sends (e : Engine P R) (j : Job P R) (haway : j.stage.isAway = true)
    (hwriting : ∀ result run, j.stage ≠ .writing result run)
    (hhold : ∀ due stay, j.stage = .arriving due → j.assignment ≠ .hold stay)
    (hsound : j.stage.Sound e.desk.fallback.retry.maxRetries j.assignment)
    (hready : j.isReady e = true) :
    ∃ bound, bound < j.work e.desk.fallback.retry.maxRetries ∧
      Sends (e.heard j) j.number j.assignment bound (e.jobTurn j) := by
  obtain ⟨number, a, stage, turn⟩ := j
  cases stage with
  | arriving due =>
    refine ⟨_, ?_, startJob_sends e number a fun stay => hhold due stay rfl⟩
    rw [Job.work_eq, Stage.work_arriving]
    exact Nat.lt_add_of_pos_right (by decide)
  | queued limit => cases haway
  | holding since due => cases haway
  | approaching =>
    exact ⟨1, Nat.lt_succ_self 1,
      Sends.leaves ⟨SameFloor.refl e, rfl, hsound, Nat.le_refl 1⟩⟩
  | occupying due =>
    exact ⟨0, Nat.lt_succ_self 0,
      Sends.leaves ⟨setLedger_floor e _ (Ledger.table_leave e.ledger number), rfl, trivial,
        Nat.le_refl 0⟩⟩
  | calling run => exact ⟨_, Nat.lt_succ_self _, bulkTurn_sends e number a run hsound⟩
  | backingOff attempt deadline due =>
    refine ⟨_, ?_, Sends.leaves (callBulk_leaves e number a (attempt + 1) deadline (by omega))⟩
    have hretries : attempt ≤ e.desk.fallback.retry.maxRetries := hsound.2
    rw [Job.work_eq, Stage.work_backingOff]
    simp only [submissionWork]
    omega
  | joining attempts run => cases haway
  | pausing attempts run due => cases haway
  | writing result run => exact absurd rfl (hwriting result run)
  | finished time ending => cases hready

end Engine

end OrderAdmission
