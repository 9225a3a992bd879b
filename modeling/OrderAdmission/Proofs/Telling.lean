import OrderAdmission.Proofs.Reports

/-!
# Stages tell the truth

Every function that leads a job from one stage to another is gone through once, in the order in which
they call each other: what the old stage tells and what has come back since is what the new stage
tells. The main result is `Move.tells`: **every move keeps what the stages tell, for all jobs at
once**.
-/
namespace OrderAdmission

variable {P R : Type}

namespace Engine

/-! ### Endings -/

theorem conclude_tells {e : Engine P R} {job : Nat} {a : Assignment P} {ending : Ending R}
    (h : EndTells e job a ending) :
    Tells (e.conclude a ending).1 job a (e.conclude a ending).2 := by
  have htells : Tells e job a (.finished e.now ending) := h
  have hpaper := htells.paper (conclude_floor e a ending)
  rw [conclude_eq] at hpaper ⊢
  exact hpaper

/-- An error before anything has been acknowledged. -/
theorem endTells_refused {e : Engine P R} {job : Nat} {a : Assignment P} {error : GateError}
    (hnone : ¬ e.Acked job)
    (herror : error ≠ .writeTimeout e.desk.persistence.transactionTimeout) :
    EndTells e job a (.ok (.error error)) :=
  fun _ _ _ => iff_of_false hnone herror

theorem endTells_not_retryable {e : Engine P R} {job : Nat} {a : Assignment P} {error : GateError}
    (h : error.retryable = false) : EndTells e job a (.ok (.error error)) := by
  intro _ _ hretryable
  rw [h] at hretryable
  cases hretryable

/-! ### Status writes -/

/-- What a turn of a status write on the table of an engine can lead to. -/
def Orderly (desk : Desk P R) : WriteTurn → Prop
  | .goesOn run => run.OnTable
  | .ends (.ok (.error error)) => error.retryable = true →
      error = .writeTimeout desk.persistence.transactionTimeout
  | _ => True

theorem openWrite_orderly (e : Engine P R) (job : Nat) (updates : List StatusUpdate)
    (hplain : e.desk.Plain) : Orderly e.desk (e.openWrite job updates).2 := by
  obtain ⟨latency, hstore⟩ := hplain.table
  simp only [openWrite, hstore]
  split
  · trivial
  · split
    · intro hretryable
      cases hretryable
    · exact Or.inl rfl

theorem endWrite_turn (e : Engine P R) (job : Nat)
    (ending : Except Crash (Except GateError Nat)) :
    (e.endWrite job ending).2 = .ends ending := by
  simp only [endWrite]
  split <;> rfl

theorem nextStatement_orderly (e : Engine P R) (job : Nat) (w : WriteRun)
    (hplain : e.desk.Plain) : Orderly e.desk (e.nextStatement job w).2 := by
  obtain ⟨latency, hstore⟩ := hplain.table
  cases hremaining : w.remaining with
  | nil =>
    rw [nextStatement_commit e job w latency hremaining hstore, endWrite_turn]
    trivial
  | cons updates rest =>
    simp only [nextStatement, hremaining, hstore]
    exact Or.inr ⟨_, rfl⟩

theorem checkCounts_not_retryable {updates : List StatusUpdate} {counts : List Nat}
    {error : GateError} (h : checkCounts updates counts = .error error) :
    error.retryable = false := by
  fun_induction checkCounts updates counts with
  | case1 u us ns ih => exact ih h
  | case2 u us ns hone =>
    cases h
    rfl
  | case3 u us n ns hone hzero =>
    cases h
    rfl
  | case4 updates counts hne => cases h

theorem checkStatement_not_retryable {updates : List StatusUpdate} {counts : List Nat}
    {error : GateError} (h : checkStatement updates counts = .error error) :
    error.retryable = false := by
  unfold checkStatement at h
  split at h
  · exact checkCounts_not_retryable h
  · cases h
    rfl

theorem afterStatement_orderly (e : Engine P R) (job : Nat) (w : WriteRun) (counts : List Nat)
    (hplain : e.desk.Plain) : Orderly e.desk (e.afterStatement job w counts).2 := by
  obtain ⟨latency, hstore⟩ := hplain.table
  cases hremaining : w.remaining with
  | nil =>
    simp only [afterStatement, hremaining]
    exact nextStatement_orderly e job w hplain
  | cons updates rest =>
    simp only [afterStatement, hremaining]
    cases hcheck : checkStatement updates counts with
    | error error =>
      have hstore' : (e.note (.stored job .rollback)).desk.store = .table latency := hstore
      simp only [rollBack, hstore', endWrite_turn]
      intro hretryable
      rw [checkStatement_not_retryable hcheck] at hretryable
      cases hretryable
    | ok => exact nextStatement_orderly e job _ hplain

theorem writeTurn_orderly (e : Engine P R) (job : Nat) (w : WriteRun) (hplain : e.desk.Plain)
    (htable : w.OnTable) : Orderly e.desk (e.writeTurn job w).2 := by
  have hcut : Orderly e.desk (e.cutWrite job).2 := by
    rw [cutWrite, endWrite_turn]
    exact fun _ => rfl
  rcases htable with hstep | ⟨due, hstep⟩
  · simp only [writeTurn, hstep]
    split
    · exact nextStatement_orderly e job w hplain
    · exact hcut
  · simp only [writeTurn, hstep]
    split
    · split
      · rw [endWrite_turn]
        trivial
      · exact afterStatement_orderly e job _ _ hplain
    · exact hcut

/-- A status write after a batch leads to the result of the batch, or to an error that shows whether
orders have been acknowledged. -/
theorem followWrite_tells {job : Nat} {a : Assignment P} {r : BatchResult R}
    {turn : Engine P R × WriteTurn} (hreported : Reported turn.1 job a r)
    (horderly : turn.1.desk.Plain → Orderly turn.1.desk turn.2)
    (hsome : r.successes ≠ [] ∨ ∃ rows, turn.2 = .ends (.ok (.ok rows))) :
    Tells (followWrite a (some r) turn).1 job a (followWrite a (some r) turn).2 := by
  rcases turn with ⟨e, run | crash | error | rows⟩
  · rcases hsome with hsome | ⟨rows, hrows⟩
    · exact ⟨hreported, hsome, horderly⟩
    · cases hrows
  · exact conclude_tells trivial
  · refine conclude_tells ?_
    intro _ hplain hretryable
    rcases hsome with hsome | ⟨rows, hrows⟩
    · exact iff_of_true (hreported.acked_of_successes hsome) (horderly hplain hretryable)
    · cases hrows
  · exact conclude_tells hreported

theorem placeOrders_tells {e : Engine P R} {job : Nat} {a : Assignment P} {r : BatchResult R}
    (h : Reported e job a r) :
    Tells (e.placeOrders job a r).1 job a (e.placeOrders job a r).2 := by
  rw [placeOrders_eq]
  cases hupdates : e.updatesFor a.orders r.successes with
  | error crash => exact conclude_tells trivial
  | ok result =>
    obtain ⟨updates, cache⟩ := result
    have hlength := length_updatesFor e a.orders r.successes hupdates
    have hfloor := (setCache_floor e cache (updatesFor_faithful e _ _ hupdates)).trans
      (openWrite_floor (e.setCache cache) job updates)
    simp only
    refine followWrite_tells (h.mono hfloor.grown) ?_ ?_
    · intro hplain
      rw [hfloor.desk] at hplain ⊢
      exact openWrite_orderly (e.setCache cache) job updates hplain
    · by_cases hempty : updates = []
      · refine Or.inr ⟨0, ?_⟩
        simp only [openWrite, hempty, List.isEmpty_nil, ↓reduceIte]
      · refine Or.inl ?_
        rintro hnone
        rw [hnone] at hlength
        exact hempty (List.length_eq_zero_iff.mp hlength)

/-- Whatever a job is asked to do, a result that it comes to has the outcome of each task in its
place. -/
theorem answered_tells {e : Engine P R} {job : Nat} {a : Assignment P} {r : BatchResult R}
    (attempts : Nat) (h : Reported e job a r) :
    Tells (e.answered job a attempts r).1 job a (e.answered job a attempts r).2 := by
  cases a with
  | process orders => exact placeOrders_tells h
  | submit orders => exact conclude_tells h
  | hold stay => exact conclude_tells h
  | execute tasks => exact conclude_tells h
  | write updates => exact conclude_tells h
  | occupy stay => exact conclude_tells h

/-! ### The beginning of a batch -/

theorem reported_empty (e : Engine P R) (job : Nat) {a : Assignment P} (h : a.tasks = []) :
    Reported e job a .empty := by
  refine ⟨by rw [h]; rfl, by rw [h]; rfl, ?_⟩
  intro q t ht
  rw [h] at ht
  cases ht

theorem admitBulk_error {b b' : Breaker} {wall : Int} {error : GateError}
    (h : b.admitBulk wall = .ok (.error error, b')) (limit : Nat) :
    error ≠ .writeTimeout limit := by
  simp only [Breaker.admitBulk, bind, Except.bind] at h
  split at h
  · cases h
  · split at h
    · split at h
      · cases h
      · cases h
        simp [GateError.writeTimeout]
    · split at h
      · cases h
        simp [GateError.writeTimeout]
      · cases h

theorem checkTasks_error {tasks : List (BatchTask P)} {error : GateError}
    (h : checkTasks tasks = .error error) : error.retryable = false := by
  unfold checkTasks at h
  split at h
  · cases h
  · cases h
    rfl

theorem startBatch_tells {e : Engine P R} {job : Nat} {a : Assignment P} (attempts : Nat)
    (hnone : ¬ e.Acked job) (hworkers : ∀ w ∈ e.workers, w.job ≠ job) :
    Tells (followStart job a attempts (e.startBatch job attempts a.tasks)).1 job a
      (followStart job a attempts (e.startBatch job attempts a.tasks)).2 := by
  rw [startBatch_eq]
  split
  · rename_i hempty
    exact answered_tells attempts (reported_empty e job (List.isEmpty_iff.mp hempty))
  · split
    · rename_i error hcheck
      exact conclude_tells (endTells_not_retryable (checkTasks_error hcheck))
    · rename_i hvalid
      split
      · exact conclude_tells trivial
      · rename_i error breaker hallowed
        have hnone' : ¬ (e.setBreaker breaker).Acked job :=
          (setBreaker_floor e breaker).not_acked hnone
        exact conclude_tells (endTells_refused hnone' (admitBulk_error hallowed _))
      · rename_i breaker _
        obtain ⟨run, hstage, hbooked⟩ := openChunk_booked attempts
          (whole_closed (e.setBreaker breaker) job hvalid) hworkers
        simp only [followStart, hstage]
        exact hbooked

theorem sendSingly_tells {e : Engine P R} {job : Nat} {a : Assignment P} (attempts : Nat)
    (hsends : a.tasks = BatchTask.ofPayloads a.orders) (hnone : ¬ e.Acked job)
    (hworkers : ∀ w ∈ e.workers, w.job ≠ job) :
    Tells (e.sendSingly job a attempts).1 job a (e.sendSingly job a attempts).2 := by
  unfold sendSingly
  rw [← hsends]
  exact startBatch_tells attempts hnone hworkers

/-! ### Bulk calls -/

theorem callBulk_tells {e : Engine P R} {job : Nat} {a : Assignment P} (attempt deadline : Nat)
    (hsends : a.tasks = BatchTask.ofPayloads a.orders) (hnone : ¬ e.Acked job) :
    Tells (e.callBulk job a attempt deadline).1 job a (e.callBulk job a attempt deadline).2 := by
  simp only [callBulk]
  split
  · exact conclude_tells trivial
  · exact ⟨hsends, hnone⟩

theorem fallBack_tells {e : Engine P R} {job : Nat} {a : Assignment P} (attempts : Nat)
    (failure : DownstreamFailure) (hsends : a.tasks = BatchTask.ofPayloads a.orders)
    (hnone : ¬ e.Acked job) (hworkers : ∀ w ∈ e.workers, w.job ≠ job) :
    Tells (e.fallBack job a attempts failure).1 job a (e.fallBack job a attempts failure).2 := by
  simp only [fallBack]
  split
  · exact conclude_tells (endTells_refused hnone (by simp [GateError.writeTimeout]))
  · exact sendSingly_tells attempts hsends hnone hworkers

theorem bulkFailed_tells {e : Engine P R} {job : Nat} {a : Assignment P} (run : BulkRun R)
    (failure : DownstreamFailure) (hsends : a.tasks = BatchTask.ofPayloads a.orders)
    (hnone : ¬ e.Acked job) (hworkers : ∀ w ∈ e.workers, w.job ≠ job) :
    Tells (e.bulkFailed job a run failure).1 job a (e.bulkFailed job a run failure).2 := by
  have htold : ¬ (e.report job .failure).Acked job := (report_floor e job .failure).not_acked hnone
  have hset (breaker : Breaker) : ¬ ((e.report job .failure).setBreaker breaker).Acked job :=
    (setBreaker_floor (e.report job .failure) breaker).not_acked htold
  rw [bulkFailed_eq]
  simp only
  split
  · exact conclude_tells (endTells_not_retryable rfl)
  · split
    · exact fallBack_tells run.attempt failure hsends htold hworkers
    · split
      · exact conclude_tells trivial
      · rename_i breaker _
        exact fallBack_tells run.attempt failure hsends (hset breaker) hworkers
      · rename_i breaker _
        split
        · exact fallBack_tells run.attempt failure hsends (hset breaker) hworkers
        · exact ⟨hsends, hset breaker⟩

/-- An answer with the wrong number of items ends a submission for good. -/
theorem bulkFailed_miscounted (e : Engine P R) (job : Nat) (a : Assignment P) (run : BulkRun R)
    (items orders : Nat) :
    e.bulkFailed job a run (.miscounted items orders) =
      e.conclude a (.ok (.error (.downstream (.miscounted items orders) false))) := by
  rw [bulkFailed_eq]
  rfl

theorem getElem?_ofPayloads (payloads : List P) (q : Nat) :
    (BatchTask.ofPayloads payloads)[q]? = payloads[q]?.map fun payload => ⟨q, payload⟩ := by
  simp only [BatchTask.ofPayloads, List.getElem?_map, List.getElem?_zipIdx, Nat.zero_add,
    Option.map_map]
  rfl

theorem checkTasks_ofPayloads (payloads : List P) :
    checkTasks (BatchTask.ofPayloads payloads) = .ok () := by
  have hindices : (BatchTask.ofPayloads payloads).map (·.index) = List.range payloads.length := by
    apply List.ext_getElem?
    intro q
    rw [List.getElem?_map, getElem?_ofPayloads]
    by_cases hq : q < payloads.length
    · simp [hq]
    · simp [hq]
  rw [checkTasks_eq_ok_iff, hindices, BatchTask.length_ofPayloads]

/-- The answer to a bulk call has an item for each order in its place. -/
theorem reported_bulk {e : Engine P R} {job : Nat} {a : Assignment P} {time : Nat}
    {items : List (Except DownstreamFailure R)}
    (hsends : a.tasks = BatchTask.ofPayloads a.orders)
    (hentry : (⟨time, .bulkEnded job (some (.ok items))⟩ : Entry P R) ∈ e.exchanges)
    (hlength : items.length = a.orders.length) :
    Reported e job a { outcomes := items.map .ofItem } := by
  refine ⟨by rw [hsends]; exact checkTasks_ofPayloads _, ?_, ?_⟩
  · rw [List.length_map, hlength, hsends, BatchTask.length_ofPayloads]
  · intro q t ht
    rw [hsends, getElem?_ofPayloads] at ht
    obtain ⟨order, horder, rfl⟩ := Option.map_eq_some_iff.mp ht
    have hq : q < items.length := hlength ▸ (List.getElem?_eq_some_iff.mp horder).1
    refine ⟨.ofItem items[q], ?_, Or.inr ⟨time, items, items[q], hentry, hlength, ?_, rfl⟩⟩
    · rw [List.getElem?_map, List.getElem?_eq_getElem hq]
      rfl
    · exact List.getElem?_eq_getElem hq

theorem note_not_acked {e : Engine P R} {job : Nat} {event : Event P R} (hnone : ¬ e.Acked job)
    (hevent : event.isAcknowledgement = false) : ¬ (e.note event).Acked job := by
  rintro ⟨x, hx, hjob, hack⟩
  rcases List.mem_cons.mp (List.mem_of_mem_filter hx) with rfl | hold
  · rw [hevent] at hack
    cases hack
  · exact hnone ⟨x, List.mem_filter.mpr ⟨hold, (List.mem_filter.mp hx).2⟩, hjob, hack⟩

theorem bulkTurn_tells {e : Engine P R} {job : Nat} {a : Assignment P} (run : BulkRun R)
    (hsends : a.tasks = BatchTask.ofPayloads a.orders) (hnone : ¬ e.Acked job)
    (hworkers : ∀ w ∈ e.workers, w.job ≠ job) :
    Tells (e.bulkTurn job a run).1 job a (e.bulkTurn job a run).2 := by
  simp only [bulkTurn]
  split
  · rename_i items _
    split
    · rename_i hcount
      have hreported : Reported (e.note (.bulkEnded job (some (.ok items)))) job a
          { outcomes := items.map .ofItem } :=
        reported_bulk hsends List.mem_cons_self hcount
      exact answered_tells run.attempt
        (hreported.mono (report_floor (e.note (.bulkEnded job (some (.ok items)))) job _).grown)
    · rw [bulkFailed_miscounted]
      exact conclude_tells (endTells_not_retryable rfl)
  · exact bulkFailed_tells run _ hsends (note_not_acked hnone rfl) hworkers
  · exact conclude_tells trivial
  · exact bulkFailed_tells run _ hsends (note_not_acked hnone rfl) hworkers

/-! ### The beginning of a job -/

theorem startSubmission_tells {e : Engine P R} {job : Nat} {a : Assignment P}
    (hsends : a.tasks = BatchTask.ofPayloads a.orders) (hnone : ¬ e.Acked job)
    (hworkers : ∀ w ∈ e.workers, w.job ≠ job) :
    Tells (e.startSubmission job a).1 job a (e.startSubmission job a).2 := by
  simp only [startSubmission]
  split
  · exact sendSingly_tells 0 hsends hnone hworkers
  · split
    · exact conclude_tells trivial
    · split
      · exact callBulk_tells 1 _ hsends hnone
      · exact conclude_tells trivial

theorem checkOverload_tells {e : Engine P R} {job : Nat} {a : Assignment P}
    (hsends : a.tasks = BatchTask.ofPayloads a.orders) (hnone : ¬ e.Acked job)
    (hworkers : ∀ w ∈ e.workers, w.job ≠ job) :
    Tells (e.checkOverload job a).1 job a (e.checkOverload job a).2 := by
  have hset (detector : Detector) : ¬ (e.setDetector detector).Acked job :=
    (setDetector_floor e detector).not_acked hnone
  simp only [checkOverload]
  split
  · exact conclude_tells (endTells_refused (hset _) (by simp [GateError.writeTimeout]))
  · exact startSubmission_tells hsends (hset _) hworkers

theorem startAdmission_tells {e : Engine P R} {job : Nat} {a : Assignment P}
    (hsends : a.tasks = BatchTask.ofPayloads a.orders) (hnone : ¬ e.Acked job)
    (hworkers : ∀ w ∈ e.workers, w.job ≠ job) :
    Tells (e.startAdmission job a).1 job a (e.startAdmission job a).2 := by
  have hentered : ¬ e.enterRequest.Acked job := (enterRequest_floor e).not_acked hnone
  have hset (breaker : Breaker) : ¬ (e.enterRequest.setBreaker breaker).Acked job :=
    (setBreaker_floor e.enterRequest breaker).not_acked hentered
  rw [startAdmission_eq]
  split
  · rename_i hempty
    have htasks : a.tasks = [] := by
      rw [hsends, List.isEmpty_iff.mp hempty]
      rfl
    exact reported_empty e job htasks
  · split
    · rename_i error hreview
      intro _ hplain hretryable
      rw [hplain.review a.orders error hreview] at hretryable
      cases hretryable
    · split
      · exact conclude_tells trivial
      · rename_i error breaker hallowed
        exact conclude_tells (endTells_refused (hset breaker) (admitBulk_error hallowed _))
      · rename_i breaker _
        exact checkOverload_tells hsends (hset breaker) hworkers

theorem keepPermit_tells (e : Engine P R) (job : Nat) (stay : Option Nat) (a : Assignment P) :
    Tells (e.keepPermit stay).1 job a (e.keepPermit stay).2 := by
  cases stay <;> trivial

theorem startJob_tells {e : Engine P R} {job : Nat} {a : Assignment P} (hnone : ¬ e.Acked job)
    (hworkers : ∀ w ∈ e.workers, w.job ≠ job) :
    Tells (e.startJob job a).1 job a (e.startJob job a).2 := by
  cases a with
  | hold stay =>
    simp only [startJob]
    split
    · exact keepPermit_tells _ job stay _
    · trivial
  | execute tasks => exact startBatch_tells 0 hnone hworkers
  | submit orders =>
    simp only [startJob]
    split
    · rename_i hempty
      rw [List.isEmpty_iff.mp hempty]
      exact reported_empty e job rfl
    · exact startSubmission_tells rfl hnone hworkers
  | process orders => exact startAdmission_tells rfl hnone hworkers
  | occupy stay => trivial
  | write updates =>
    simp only [startJob]
    generalize e.openWrite job updates = turn
    rcases turn with ⟨e', run | crash | error | rows⟩
    · rfl
    · exact conclude_tells trivial
    · refine conclude_tells ?_
      intro hadmission
      cases hadmission
    · exact conclude_tells trivial

/-! ### Turns -/

theorem joinTurn_tells {e : Engine P R} {job : Nat} {a : Assignment P} {run : BatchRun P R}
    (attempts : Nat) (hwf : e.WellFormed) (hdiligent : e.Diligent)
    (h : Booked e job a.tasks run) :
    Tells (followBatch job a attempts (e.joinTurn job attempts run)).1 job a
      (followBatch job a attempts (e.joinTurn job attempts run)).2 := by
  have hclosed := settled_closed h
  have hnone := settled_gone e job run
  rw [joinTurn_eq]
  cases hfound : (e.workersOf job).find? (·.hasEnded) with
  | some w =>
    have hmem := List.mem_filter.mp (List.mem_of_find?_eq_some hfound)
    exact collect_booked hwf hdiligent h hmem.1 (by simpa using hmem.2) (List.find?_some hfound)
  | none =>
    simp only [endChunk_eq]
    by_cases hlast : run.remaining = []
    · simp only [hlast, List.isEmpty_nil, ↓reduceIte]
      -- No task is left, so that all places are taken.
      refine answered_tells attempts ⟨h.valid, hclosed.noted.length, ?_⟩
      intro q t ht
      have hposition : q < run.position := by
        have hq := (List.getElem?_eq_some_iff.mp ht).1
        have hdrop := h.remaining.symm.trans hlast
        rw [List.drop_eq_nil_iff] at hdrop
        omega
      have hrange : t.index < (e.settled job run).2.length := by
        rw [hclosed.noted.length]
        exact (checkTasks_ok h.valid).1 t (List.mem_of_getElem? ht)
      have hplace := List.getElem?_eq_getElem hrange
      refine ⟨_, hplace, Or.inl ?_⟩
      rcases hclosed.noted.fates q t _ ht hplace with hpending | hfate
      · have hmissing := isMissing_iff.mpr (hplace.trans (congrArg some hpending))
        rw [hclosed.done q t hposition ht] at hmissing
        cases hmissing
      · exact hfate
    · have hempty : run.remaining.isEmpty = false := by simpa using hlast
      simp only [hempty, Bool.false_eq_true, ↓reduceIte]
      split
      · exact hclosed
      · obtain ⟨run', hstage, hbooked⟩ := openChunk_booked attempts hclosed hnone
        simp only [followBatch, settled] at hstage hbooked ⊢
        rw [hstage]
        exact hbooked

theorem jobTurn_tells {e : Engine P R} {j : Job P R} (hwf : e.WellFormed)
    (hdiligent : e.Diligent) (hj : j ∈ e.jobs) (h : Tells e j.number j.assignment j.stage) :
    Tells (e.jobTurn j).1 j.number j.assignment (e.jobTurn j).2 := by
  have hworkers (hnone : j.stage.isJoining = false) : ∀ w ∈ e.workers, w.job ≠ j.number :=
    hwf.no_workers hj hnone
  obtain ⟨number, a, stage, turn⟩ := j
  cases stage with
  | arriving due => exact startJob_tells h (hworkers rfl)
  | queued limit =>
    simp only [jobTurn]
    split
    · exact keepPermit_tells _ number _ a
    · obtain ⟨stay, rfl⟩ : ∃ stay, a = .hold stay := hwf.sound _ hj
      intro hadmission
      cases hadmission
  | holding since due => trivial
  | approaching => trivial
  | occupying due => trivial
  | calling run => exact bulkTurn_tells run h.1 h.2 (hworkers rfl)
  | backingOff attempt deadline due => exact callBulk_tells (attempt + 1) deadline h.1 h.2
  | joining attempts run => exact joinTurn_tells attempts hwf hdiligent h
  | pausing attempts run due =>
    obtain ⟨run', hstage, hbooked⟩ := openChunk_booked attempts h (hworkers rfl)
    simp only [jobTurn, hstage]
    exact hbooked
  | writing result run =>
    have hfloor := writeTurn_floor e number run
    cases result with
    | none =>
      have hnot : a.isAdmission = false := h
      simp only [jobTurn]
      generalize e.writeTurn number run = turn
      rcases turn with ⟨e', run' | crash | error | rows⟩
      · exact hnot
      · exact conclude_tells trivial
      · refine conclude_tells ?_
        intro hadmission
        rw [hnot] at hadmission
        cases hadmission
      · exact conclude_tells trivial
    | some r =>
      obtain ⟨hreported, hsome, htable⟩ := h
      have hledger : Grown e (e.setLedger (e.writeTurn number run).1.ledger) :=
        ⟨rfl, fun _ hx => hx⟩
      refine followWrite_tells (hreported.mono (hledger.trans hfloor.grown)) ?_ (Or.inl hsome)
      intro hplain
      rw [hfloor.desk] at hplain ⊢
      exact writeTurn_orderly e number run hplain (htable hplain)
  | finished time ending => exact h

/-! ### Moves -/

/-- All jobs are at stages that tell the truth. -/
def Truthful (e : Engine P R) : Prop := ∀ j ∈ e.jobs, Tells e j.number j.assignment j.stage

theorem serveWorker_truthful {e : Engine P R} (hwf : e.WellFormed) {w : Worker P R}
    (hw : w ∈ e.workers) (h : e.Truthful) : (e.serveWorker w).Truthful := by
  obtain ⟨before, after, hold, hnew⟩ := serveWorker_workers hwf hw
  obtain ⟨added, hadded, hown⟩ := workerTurn_exchanges e w
  have hhouse := workerTurn_house e w
  have hjobs : (e.serveWorker w).jobs = e.jobs := hhouse.jobs
  have hexchanges : (e.serveWorker w).exchanges = added ++ e.exchanges := hadded
  intro j hj
  rw [hjobs] at hj
  refine (h j hj).frame hhouse.desk hexchanges ?_ ?_ ?_
  · intro hnone x hx hjob
    rw [hwf.isJoining hj hw ((hown x hx).symm.trans hjob)] at hnone
    cases hnone
  · intro v hv hjob
    rw [hold, List.mem_append, List.mem_cons] at hv
    simp only [hnew, List.mem_append, List.mem_cons]
    rcases hv with hv | rfl | hv
    · exact ⟨v, Or.inl hv, hjob, rfl⟩
    · exact ⟨_, Or.inr (Or.inl rfl), hjob, rfl⟩
    · exact ⟨v, Or.inr (Or.inr hv), hjob, rfl⟩
  · intro v hv hjob
    rw [hnew, List.mem_append, List.mem_cons] at hv
    simp only [hold, List.mem_append, List.mem_cons]
    rcases hv with hv | rfl | hv
    · exact ⟨v, Or.inl hv, hjob, rfl, rfl, rfl⟩
    · exact ⟨w, Or.inr (Or.inl rfl), hjob, rfl, rfl, rfl⟩
    · exact ⟨v, Or.inr (Or.inr hv), hjob, rfl, rfl, rfl⟩

theorem serveJob_truthful {e : Engine P R} (hwf : e.WellFormed) (hdiligent : e.Diligent)
    {j : Job P R} (hj : j ∈ e.jobs) (hready : j.isReady e = true) (h : e.Truthful) :
    (e.serveJob j).Truthful := by
  have hturn := jobTurn_turn e j (hwf.sound j hj) hready
  obtain ⟨kept, tasks, position, hstaff⟩ := hturn.staffing hwf hj
  obtain ⟨added, hadded, hown⟩ := heard_exchanges e j
  have hexchanges : (e.serveJob j).exchanges = added ++ e.exchanges :=
    hturn.exchanges.trans hadded
  have hworkers : (e.serveJob j).workers =
      kept ++ spawnWorkers j.number tasks e.nextNumber position := hstaff.workers
  have hothers (k : Job P R) (hk : k ∈ e.jobs) (hne : k.number ≠ j.number) :
      Tells (e.serveJob j) k.number k.assignment k.stage := by
    refine (h k hk).frame hturn.sameJobs.desk hexchanges ?_ ?_ ?_
    · intro _ x hx hjob
      exact hne (hjob.symm.trans (hown x hx))
    · intro w hw hjob
      refine ⟨w, ?_, hjob, rfl⟩
      rw [hworkers]
      exact List.mem_append_left _ (hstaff.others w hw fun hsame => hne (hjob.symm.trans hsame))
    · intro w hw hjob
      rw [hworkers, List.mem_append] at hw
      rcases hw with hw | hw
      · exact ⟨w, hstaff.sublist.subset hw, hjob, rfl, rfl, rfl⟩
      · exact absurd (hjob.symm.trans (job_of_mem_spawnWorkers hw)) hne
  intro k hk
  rcases mem_serveJob hwf hj hready hk with rfl | ⟨hk, hne⟩
  · exact (jobTurn_tells hwf hdiligent hj (h j hj)).congr rfl rfl rfl
  · exact hothers k hk hne

/-- **Every move keeps what the stages tell, for all jobs at once.** -/
theorem Move.truthful {e e' : Engine P R} (hmove : Move e e') (hwf : e.WellFormed)
    (hdiligent : e.Diligent) (h : e.Truthful) : e'.Truthful := by
  cases hmove with
  | worker member ready => exact serveWorker_truthful hwf member h
  | job member ready => exact serveJob_truthful hwf hdiligent member ready h
  | tick quiet due => exact fun j hj => (h j hj).congr rfl rfl rfl

/-- What holds of every engine on a course from an engine at rest. -/
structure Reached (e : Engine P R) : Prop where
  wellFormed : e.WellFormed
  diligent : e.Diligent
  truthful : e.Truthful

theorem Move.reached {e e' : Engine P R} (hmove : Move e e') (h : e.Reached) : e'.Reached :=
  ⟨hmove.wellFormed h.wellFormed, hmove.diligent h.wellFormed h.diligent,
    hmove.truthful h.wellFormed h.diligent h.truthful⟩

theorem AtRest.reached {e : Engine P R} (hrest : e.AtRest)
    (assignments : List (Nat × Assignment P)) : (e.addJobs assignments).unturned.Reached := by
  have hwf := hrest.wellFormed assignments
  refine ⟨hwf, ?_, ?_⟩
  · intro w hw
    rw [addJobs_eq] at hw
    simp [unturned, hrest.workers] at hw
  · intro j' hj'
    obtain ⟨j, hj, rfl⟩ := List.mem_map.mp hj'
    have hexchanges : (e.addJobs assignments).unturned.exchanges = e.exchanges := by
      rw [addJobs_eq]
      rfl
    rw [addJobs_eq, hrest.jobs] at hj
    obtain ⟨_, due, hstage⟩ := mem_newJobs hj
    have hnumber : e.nextNumber ≤ j.number := by
      have hmem : j.number ∈ (newJobs (R := R) e.now e.nextNumber assignments).map (·.number) :=
        List.mem_map_of_mem hj
      rw [map_number_newJobs] at hmem
      exact (List.mem_range'_1.mp hmem).1
    simp only [Job.unturned, hstage]
    rintro ⟨x, hx, hjob, _⟩
    rw [hexchanges] at hx
    have hpast := hrest.past x hx
    omega

/-- **Along every course, stages tell the truth.** -/
theorem Course.reached {e e' : Engine P R} (hcourse : Course e e') (h : e.Reached) : e'.Reached :=
  hcourse.keeps Move.reached h

end Engine

end OrderAdmission
