import OrderAdmission.Proofs.Telling

/-!
# Every task has its outcome

A batch that is executed and admitted comes to a result, whatever its tasks do and whatever else is
going on: with one outcome for each task, in the place of the task, and a success only where the call
of this very task came back with the value in time (`execute_accounts_for_every_task`).

That the breaker admits the batch is said of the engine as it is given. It is the first job, and is
served first (`perform_first`), so that nothing has asked the breaker before it.
-/
namespace OrderAdmission

variable {P R : Type}

namespace Engine

/-! ### The first job is served first -/

theorem le_of_mem_callJobs (e : Engine P R) {js : List (Job P R)} {next : Nat}
    (hnone : ∀ j ∈ js, j.turn = none) :
    ∀ j ∈ (e.callJobs js next).1, ∀ turn, j.turn = some turn → next ≤ turn := by
  induction js generalizing next with
  | nil => simp [callJobs]
  | cons j rest ih =>
    have hj : j.turn = none := hnone j List.mem_cons_self
    have hrest : ∀ k ∈ rest, k.turn = none := fun k hk => hnone k (List.mem_cons_of_mem _ hk)
    simp only [callJobs, hj]
    intro k hk turn hturn
    split at hk
    · rcases List.mem_cons.mp hk with rfl | hk
      · exact Nat.le_of_eq (Option.some.inj hturn)
      · exact Nat.le_of_succ_le (ih hrest k hk turn hturn)
    · rcases List.mem_cons.mp hk with rfl | hk
      · cases hturn
      · exact ih hrest k hk turn hturn

/-- Of the jobs of an engine at rest, the first is served first if it begins at once. -/
theorem step_first {e : Engine P R} (hrest : e.AtRest) (a : Assignment P)
    (others : List (Nat × Assignment P)) :
    newJob e.nextNumber e.now a ∈ (e.addJobs ((0, a) :: others)).unturned.jobs ∧
      (newJob e.nextNumber e.now a).isReady (e.addJobs ((0, a) :: others)).unturned = true ∧
      ∃ e', (e.addJobs ((0, a) :: others)).callAfterTurn.step = some e' ∧ e'.Called ∧
        e'.unturned =
          (e.addJobs ((0, a) :: others)).unturned.serveJob (newJob e.nextNumber e.now a) := by
  have hadded := addJobs_eq e ((0, a) :: others)
  generalize e.addJobs ((0, a) :: others) = added at *
  have hjobs : added.jobs =
      newJob e.nextNumber e.now a :: newJobs e.now (e.nextNumber + 1) others := by
    rw [hadded, hrest.jobs]
    rfl
  have hworkers : added.workers = [] := by rw [hadded, hrest.workers]
  have hnow : added.now = e.now := by rw [hadded]
  have hready : (newJob e.nextNumber e.now a).isReady added = true := by
    simp [newJob, Job.isReady, hnow]
  -- Called up, the first job has the lowest turn number.
  have hcalledWorkers : added.callAfterTurn.workers = [] := by
    simp only [callAfterTurn, hworkers, callWorkers]
  obtain ⟨behind, hcalledJobs, hbehind⟩ : ∃ behind, added.callAfterTurn.jobs =
      { newJob e.nextNumber e.now a with turn := some added.nextTurn } :: behind ∧
        ∀ j ∈ behind, ∀ turn, j.turn = some turn → added.nextTurn < turn := by
    have hnone : ∀ j ∈ newJobs (R := R) e.now (e.nextNumber + 1) others, j.turn = none :=
      fun j hj => (mem_newJobs hj).1
    refine ⟨_, ?_, le_of_mem_callJobs added hnone⟩
    simp only [callAfterTurn, hworkers, callWorkers, hjobs, callJobs, hready, ↓reduceIte]
    rfl
  have hlowest : added.callAfterTurn.turn? = some added.nextTurn := by
    have hmem : { newJob e.nextNumber e.now a with turn := some added.nextTurn } ∈
        added.callAfterTurn.jobs := by
      rw [hcalledJobs]
      exact List.mem_cons_self
    cases hfirst : added.callAfterTurn.turn? with
    | none => cases (firstTurn_eq_none hfirst).2 _ hmem
    | some turn =>
      obtain ⟨hsomebody, _, hle⟩ := firstTurn_spec hfirst
      have hturn : turn ≤ added.nextTurn := hle _ hmem _ rfl
      rcases hsomebody with ⟨w, hw, _⟩ | ⟨j, hj, hj'⟩
      · rw [hcalledWorkers] at hw
        cases hw
      · rw [hcalledJobs] at hj
        rcases List.mem_cons.mp hj with rfl | hj
        · exact hj'.symm
        · have hlt := hbehind j hj turn hj'
          omega
  have hserve : added.callAfterTurn.serve added.nextTurn = added.callAfterTurn.serveJob
      { newJob e.nextNumber e.now a with turn := some added.nextTurn } := by
    unfold serve
    rw [hcalledWorkers, hcalledJobs]
    simp
  refine ⟨?_, ?_, (added.callAfterTurn.serve added.nextTurn).callAfterTurn, ?_,
    called_callAfterTurn _, ?_⟩
  · simp only [unturned, hjobs, List.map_cons]
    exact List.mem_cons_self
  · exact (isReady_unturned added (newJob e.nextNumber e.now a)).trans hready
  · unfold step
    rw [hlowest]
  · rw [unturned_callAfterTurn, hserve, ← unturned_serveJob, unturned_callAfterTurn]
    rfl

/-- What is performed is a course to the end on which the first job is served first. -/
theorem perform_first {e : Engine P R} (hrest : e.AtRest) (a : Assignment P)
    (others : List (Nat × Assignment P)) :
    newJob e.nextNumber e.now a ∈ (e.addJobs ((0, a) :: others)).unturned.jobs ∧
      (newJob e.nextNumber e.now a).isReady (e.addJobs ((0, a) :: others)).unturned = true ∧
      ∃ done, Course ((e.addJobs ((0, a) :: others)).unturned.serveJob
          (newJob e.nextNumber e.now a)) done ∧ done.Settled ∧
        (e.perform ((0, a) :: others)).1.unturned = { done with jobs := [] } ∧
        (e.perform ((0, a) :: others)).2 = done.jobs.map (·.ending?) := by
  obtain ⟨hmem, hready, e', hstep, hcalled, he'⟩ := step_first hrest a others
  refine ⟨hmem, hready, (e.addJobs ((0, a) :: others)).run.unturned, ?_,
    run_settled (hrest.wellFormed _), rfl, ?_⟩
  · have hcourse := runFor_course
      (2 * (e.addJobs ((0, a) :: others)).callAfterTurn.work + 1) hcalled
    rw [he'] at hcourse
    have hrun : (e.addJobs ((0, a) :: others)).run =
        runFor (2 * (e.addJobs ((0, a) :: others)).callAfterTurn.work + 1) e' := by
      simp only [run, runFor, hstep]
    rw [hrun]
    exact hcourse
  · simp only [perform, unturned, List.map_map]
    rfl

end Engine

/-! ### A batch that is under way -/

/-- A batch that has been admitted is at work, between two chunks, or at a result. -/
def Stage.isUnderway : Stage P R → Bool
  | .joining _ _ | .pausing _ _ _ => true
  | .finished _ (.ok (.ok (.batch _))) => true
  | _ => false

namespace Engine

theorem answered_underway (e : Engine P R) (job attempts : Nat) (tasks : List (BatchTask P))
    (r : BatchResult R) :
    (e.answered job (.execute tasks) attempts r).2.isUnderway = true := by
  simp only [answered, conclude_eq]
  rfl

/-- A batch that the breaker admits gets under way. -/
theorem startBatch_underway {e : Engine P R} (job : Nat) {tasks : List (BatchTask P)}
    (hvalid : checkTasks tasks = .ok ()) {breaker : Breaker}
    (hallowed : e.breaker.admitBulk e.wall = .ok (.ok (), breaker)) :
    (e.startJob job (.execute tasks)).2.isUnderway = true := by
  simp only [startJob]
  rw [startBatch_eq]
  split
  · exact answered_underway e job 0 tasks .empty
  · rw [hvalid, hallowed]
    rfl

theorem jobTurn_underway (e : Engine P R) {j : Job P R} {tasks : List (BatchTask P)}
    (hassignment : j.assignment = .execute tasks) (h : j.stage.isUnderway = true) :
    (e.jobTurn j).2.isUnderway = true := by
  obtain ⟨number, a, stage, turn⟩ := j
  obtain rfl : a = .execute tasks := hassignment
  cases stage with
  | joining attempts run =>
    simp only [jobTurn]
    rw [joinTurn_eq]
    split
    · rfl
    · simp only [endChunk_eq]
      split
      · exact answered_underway _ number attempts tasks _
      · split <;> rfl
  | pausing attempts run due => rfl
  | finished time ending => exact h
  | _ => cases h

/-- The batch with this number is under way. -/
def Underway (e : Engine P R) (number : Nat) (tasks : List (BatchTask P)) : Prop :=
  ∃ j ∈ e.jobs, j.number = number ∧ j.assignment = .execute tasks ∧ j.stage.isUnderway = true

theorem serveJob_underway {e : Engine P R} {tasks : List (BatchTask P)} (hwf : e.WellFormed)
    {j : Job P R} (hj : j ∈ e.jobs) (hready : j.isReady e = true)
    (hassignment : j.assignment = .execute tasks)
    (hunderway : (e.jobTurn j).2.isUnderway = true) :
    (e.serveJob j).Underway j.number tasks := by
  exact ⟨_, self_mem_serveJob hwf hj hready, rfl, hassignment, hunderway⟩

theorem Move.underway {e e' : Engine P R} {number : Nat} {tasks : List (BatchTask P)}
    (hmove : Move e e') (hwf : e.WellFormed) (h : e.Underway number tasks) :
    e'.Underway number tasks := by
  obtain ⟨j, hj, hnumber, hassignment, hunderway⟩ := h
  cases hmove with
  | @worker w member ready =>
    have hjobs : (e.serveWorker w).jobs = e.jobs := (workerTurn_house e w).jobs
    exact ⟨j, by rw [hjobs]; exact hj, hnumber, hassignment, hunderway⟩
  | @job k member ready =>
    by_cases hself : j.number = k.number
    · obtain rfl := hwf.job_unique hj member hself
      exact ⟨_, self_mem_serveJob hwf hj ready, hnumber, hassignment,
        jobTurn_underway e hassignment hunderway⟩
    · exact ⟨j, other_mem_serveJob hwf member ready hj hself, hnumber, hassignment, hunderway⟩
  | tick quiet due => exact ⟨j, hj, hnumber, hassignment, hunderway⟩

/-! ### Counting outcomes -/

end Engine

namespace BatchResult

theorem counts_eq {r : BatchResult R} (h : ∀ o ∈ r.outcomes, o ≠ .pending) :
    r.successCount + r.failureCount = r.outcomes.length := by
  simp only [successCount, failureCount]
  generalize r.outcomes = outcomes at h
  induction outcomes with
  | nil => rfl
  | cons o rest ih =>
    have hrest := ih fun o' ho' => h o' (List.mem_cons_of_mem _ ho')
    have ho := h o List.mem_cons_self
    simp only [List.countP_cons, List.length_cons]
    cases o with
    | pending => exact absurd rfl ho
    | success value =>
      have hsuccess : (Outcome.success value).isSuccess = true := rfl
      have hfailure : (Outcome.success value).isFailure = false := rfl
      simp only [hsuccess, hfailure, Bool.false_eq_true, ↓reduceIte]
      omega
    | failure reason =>
      have hsuccess : (Outcome.failure reason : Outcome R).isSuccess = false := rfl
      have hfailure : (Outcome.failure reason : Outcome R).isFailure = true := rfl
      simp only [hsuccess, hfailure, Bool.false_eq_true, ↓reduceIte]
      omega

theorem allSucceeded_iff {r : BatchResult R} (h : ∀ o ∈ r.outcomes, o ≠ .pending) :
    r.allSucceeded = true ↔ ∀ o ∈ r.outcomes, o.isSuccess = true := by
  have hcounts := counts_eq h
  have hall : r.successCount = r.outcomes.length ↔ ∀ o ∈ r.outcomes, o.isSuccess = true :=
    List.countP_eq_length
  simp only [allSucceeded, size, Bool.and_eq_true, beq_iff_eq]
  rw [← hall]
  constructor
  · intro hboth
    exact hboth.2
  · intro hsuccess
    exact ⟨by omega, hsuccess⟩

end BatchResult

namespace Engine

/-- A task has no items in bulk calls if its job makes none. -/
theorem fate_of_execute {e : Engine P R} {job position : Nat} {tasks : List (BatchTask P)}
    {payload : P} {outcome : Outcome R}
    (h : Fate e job position payload outcome ∨
      e.InBulk job (.execute tasks) position outcome) : Fate e job position payload outcome := by
  rcases h with hfate | ⟨time, items, item, _, hlength, hitem, _⟩
  · exact hfate
  · have hnil : items = [] := List.length_eq_zero_iff.mp hlength
    rw [hnil] at hitem
    cases hitem

/-- The result of a batch accounts for its tasks: it has one outcome for each, none of them open, and
counts that add up. The outcome in each place is what became of the one task with this index. -/
structure AccountsFor (e : Engine P R) (job : Nat) (tasks : List (BatchTask P))
    (r : BatchResult R) : Prop where
  length : r.outcomes.length = tasks.length
  closed : ∀ o ∈ r.outcomes, o ≠ .pending
  counts : r.successCount + r.failureCount = tasks.length
  allSucceeded : r.allSucceeded = true ↔ ∀ o ∈ r.outcomes, o.isSuccess = true
  places : ∀ i o, r.outcomes[i]? = some o → ∃ position payload,
    (∀ q t, tasks[q]? = some t ∧ t.index = i ↔ q = position ∧ t = ⟨i, payload⟩) ∧
      Fate e job position payload o

theorem AccountsFor.mono {e e' : Engine P R} {job : Nat} {tasks : List (BatchTask P)}
    {r : BatchResult R} (h : AccountsFor e job tasks r) (hgrown : Grown e e') :
    AccountsFor e' job tasks r := by
  refine ⟨h.length, h.closed, h.counts, h.allSucceeded, ?_⟩
  intro i o ho
  obtain ⟨position, payload, hunique, hfate⟩ := h.places i o ho
  exact ⟨position, payload, hunique, hfate.mono hgrown⟩

theorem Reported.accountsFor {e : Engine P R} {job : Nat} {tasks : List (BatchTask P)}
    {r : BatchResult R} (h : Reported e job (.execute tasks) r) : AccountsFor e job tasks r := by
  have hclosed := h.not_pending
  refine ⟨h.length, hclosed, ?_, BatchResult.allSucceeded_iff hclosed, ?_⟩
  · rw [BatchResult.counts_eq hclosed]
    exact h.length
  · intro i o ho
    obtain ⟨position, ⟨index, payload⟩, htask, rfl, hfate⟩ := h.place ho
    have htask' : tasks[position]? = some ⟨index, payload⟩ := htask
    refine ⟨position, payload, ?_, fate_of_execute hfate⟩
    intro q t
    constructor
    · rintro ⟨ht, hindex⟩
      exact position_unique h.valid ht htask' hindex
    · rintro ⟨rfl, rfl⟩
      exact ⟨htask', rfl⟩

/-- In the end, a batch that is under way has come to a result that accounts for its tasks. -/
theorem Settled.accountsFor {e : Engine P R} (hsettled : e.Settled) (hreached : e.Reached)
    {number : Nat} {tasks : List (BatchTask P)} (hunderway : e.Underway number tasks) :
    ∃ j ∈ e.jobs, j.number = number ∧ ∃ time r,
      j.ending? = some (time, .ok (.ok (.batch r))) ∧ AccountsFor e number tasks r := by
  obtain ⟨j, hj, rfl, hassignment, hstage⟩ := hunderway
  obtain ⟨time, ending, hfinished⟩ := hsettled.finished hreached.wellFormed hj
    (by rw [hassignment]; rfl)
  have htells := hreached.truthful j hj
  rw [hfinished] at hstage htells
  rw [hassignment] at htells
  refine ⟨j, hj, rfl, time, ?_⟩
  rcases ending with crash | error | receipt
  · cases hstage
  · cases hstage
  · cases receipt with
    | batch r => exact ⟨r, by rw [Job.ending?, hfinished], Reported.accountsFor htells⟩
    | _ => cases hstage

/-- Once the breaker admits a batch in its first turn, it is under way on every course. -/
theorem underway_of_allowed {e done : Engine P R} (hwf : e.WellFormed) {j : Job P R}
    (hj : j ∈ e.jobs) (hready : j.isReady e = true) {due : Nat} (hstage : j.stage = .arriving due)
    {tasks : List (BatchTask P)} (hassignment : j.assignment = .execute tasks)
    (hvalid : checkTasks tasks = .ok ()) {breaker : Breaker}
    (hallowed : e.breaker.admitBulk e.wall = .ok (.ok (), breaker))
    (hcourse : Course (e.serveJob j) done) : done.Underway j.number tasks := by
  have hfirst : (e.jobTurn j).2.isUnderway = true := by
    simp only [jobTurn, hstage, hassignment]
    exact startBatch_underway j.number hvalid hallowed
  have hbegun := serveJob_underway hwf hj hready hassignment hfirst
  exact Course.carries Move.underway hcourse (serveJob_wellFormed hwf hj hready) hbegun

/-- **Nothing is lost, doubled or misplaced.** A batch with accepted indices that the breaker admits
in its first turn comes to a result that accounts for its tasks. This holds for what is performed,
where it is the first of several assignments, and it holds on every course, wherever on it the batch
has its first turn and in whatever order everybody is served afterwards; and every course comes to
an end. -/
theorem execute_accounts_for_every_task {e : Engine P R} (hrest : e.AtRest)
    {tasks : List (BatchTask P)} (hvalid : checkTasks tasks = .ok ()) :
    (∀ others breaker, e.breaker.admitBulk e.wall = .ok (.ok (), breaker) → ∃ time r,
      (e.perform ((0, .execute tasks) :: others)).2.head? =
        some (some (time, .ok (.ok (.batch r)))) ∧
      AccountsFor (e.perform ((0, .execute tasks) :: others)).1 e.nextNumber tasks r) ∧
    ∀ assignments e' j due breaker, Course (e.addJobs assignments).unturned e' → j ∈ e'.jobs →
      j.stage = .arriving due → due ≤ e'.now → j.assignment = .execute tasks →
      e'.breaker.admitBulk e'.wall = .ok (.ok (), breaker) →
      (∃ done, Course (e'.serveJob j) done ∧ done.Settled) ∧
        ∀ done, Course (e'.serveJob j) done → done.Settled →
          ∃ k ∈ done.jobs, k.number = j.number ∧ ∃ time r,
            k.ending? = some (time, .ok (.ok (.batch r))) ∧
            AccountsFor done j.number tasks r := by
  constructor
  · intro others breaker hallowed
    obtain ⟨hmem, hready, done, hcourse, hsettled, hdone, hendings⟩ :=
      perform_first hrest (.execute tasks) others
    have hreached := hrest.reached ((0, .execute tasks) :: others)
    have hfirst : Move (e.addJobs ((0, .execute tasks) :: others)).unturned _ :=
      Move.job hmem hready
    have hall : Course (e.addJobs ((0, .execute tasks) :: others)).unturned done :=
      Relation.ReflTransGen.head hfirst hcourse
    have hallowed' : (e.addJobs ((0, .execute tasks) :: others)).unturned.breaker.admitBulk
        (e.addJobs ((0, .execute tasks) :: others)).unturned.wall = .ok (.ok (), breaker) := by
      rw [addJobs_eq]
      exact hallowed
    have hunderway := underway_of_allowed hreached.wellFormed hmem hready rfl rfl hvalid hallowed'
      hcourse
    obtain ⟨j, hj, hnumber, time, r, hending, haccounts⟩ :=
      hsettled.accountsFor (Course.reached hall hreached) hunderway
    refine ⟨time, r, ?_, ?_⟩
    · rw [hendings, List.head?_eq_getElem?, hrest.getElem?_endings (i := 0) hall hj hnumber, hending]
    · have hgrown : Grown done (e.perform ((0, .execute tasks) :: others)).1.unturned := by
        rw [hdone]
        exact ⟨rfl, fun _ hx => hx⟩
      exact haccounts.mono ⟨hgrown.desk, hgrown.exchanges⟩
  · intro assignments e' j due breaker hcourse hj hstage hdue hassignment hallowed
    have hreached := Course.reached hcourse (hrest.reached assignments)
    have hready : j.isReady e' = true := by
      simpa [Job.isReady, hstage] using hdue
    have hserved := Move.reached (Move.job hj hready) hreached
    refine ⟨exists_settled hserved.wellFormed, ?_⟩
    intro done hrun hsettled
    exact hsettled.accountsFor (Course.reached hrun hserved)
      (underway_of_allowed hreached.wellFormed hj hready hstage hassignment hvalid hallowed hrun)

/-- Three tasks in another order than their places, at one permit and in chunks of two: one that is
answered, one that breaks off and one that hangs. -/
theorem execute_accounts_for_three_tasks :
    let e : Engine (Conduct (Except DownstreamFailure Nat)) Nat :=
      begun (.forTasks Nat { chunkSize := 2, maxConcurrency := 1, taskTimeout := 20 }) {} {} none
        [] 0
    let tasks := [⟨1, .answers 3 (.ok 7)⟩, ⟨2, .breaksOff 1⟩, ⟨0, .hangs⟩]
    e.AtRest ∧ checkTasks tasks = .ok () ∧ e.breaker.admitBulk e.wall = .ok (.ok (), e.breaker) ∧
      ∃ time r, (e.perform [(0, .execute tasks)]).2.head? =
        some (some (time, .ok (.ok (.batch r)))) ∧ r.outcomes.length = 3 := by
  intro e tasks
  have hrest : e.AtRest := begun_atRest _ _ _ _ _ _
  have hvalid : checkTasks tasks = .ok () := rfl
  have hallowed : e.breaker.admitBulk e.wall = .ok (.ok (), e.breaker) := rfl
  obtain ⟨time, r, hending, haccounts⟩ :=
    (execute_accounts_for_every_task hrest hvalid).1 [] e.breaker hallowed
  exact ⟨hrest, hvalid, hallowed, time, r, hending, haccounts.length⟩

end Engine

end OrderAdmission
