import OrderAdmission.Config.Problem
import OrderAdmission.Proofs.Admission
import OrderAdmission.Proofs.BulkCalls
import OrderAdmission.Proofs.Readings

/-!
# The first batch of a gate

Settings that are accepted should make a gate that lets something in. So a single batch comes to a gate
that has just been built, with a pool that is healthy. Its circuit is closed, none of its permits is
taken, and nothing is known of the memory. The one thing that may be too much is the batch itself, for it
counts as a request in progress before the detector looks. **It is turned away exactly if one breaching
check is enough and one request of as many as there may be lies above the threshold**
(`overloaded_begun`).

A batch that is let in is sent at once, by the first turn or the one right after it, unless the settings
leave no time for a call.
-/
namespace OrderAdmission

/-! ### Accepted settings -/

namespace AppConfig

/-- What is asked of settings. -/
structure Acceptable (c : AppConfig) : Prop where
  ratios : ∀ r ∈ c.ratios, isRatio r.2 = true
  delays : c.overload.baseRetryDelay ≤ c.overload.maxRetryDelay
  detections : c.overload.consecutiveDetections ≠ 0
  requests : c.overload.maxConcurrentRequests ≠ 0
  failures : c.breaker.failureThreshold ≠ 0
  executorChunk : c.executor.chunkSize ≠ 0
  concurrency : c.executor.maxConcurrency ≠ 0
  persistenceChunk : c.persistence.chunkSize ≠ 0
  multiplier : ¬ c.fallback.retry.multiplier < 1.0
  connections : ∀ db, c.database = some db → c.executor.maxConcurrency ≤ db.maxConnections

theorem problemIf_eq_nil {condition : Bool} {p : ConfigProblem} :
    problemIf condition p = [] ↔ condition = false := by
  cases condition <;> simp [problemIf]

theorem isValid_iff {c : AppConfig} : c.isValid = true ↔ c.Acceptable := by
  simp only [isValid, problems, List.isEmpty_iff, List.append_eq_nil_iff, List.map_eq_nil_iff,
    List.filter_eq_nil_iff, Bool.not_eq_true, Bool.not_eq_false', problemIf_eq_nil,
    decide_eq_false_iff_not, beq_eq_false_iff_ne, and_assoc, Nat.not_lt]
  constructor
  · rintro ⟨hratios, h₂, h₃, h₄, h₅, h₆, h₇, h₈, h₉, hconnections⟩
    refine ⟨hratios, h₂, h₃, h₄, h₅, h₆, h₇, h₈, h₉, fun db hdb => ?_⟩
    simpa [hdb, problemIf_eq_nil] using hconnections
  · rintro ⟨hratios, h₂, h₃, h₄, h₅, h₆, h₇, h₈, h₉, hconnections⟩
    refine ⟨hratios, h₂, h₃, h₄, h₅, h₆, h₇, h₈, h₉, ?_⟩
    cases hdb : c.database with
    | none => rfl
    | some db => simpa [problemIf_eq_nil] using hconnections db hdb

theorem Acceptable.threshold_pos {c : AppConfig} (h : c.Acceptable) (kind : ResourceKind) :
    0.0 < c.overload.threshold kind := by
  have hmem : c.overload.threshold kind ∈ c.ratios.map (·.2) := by
    cases kind <;> simp [AppConfig.ratios, OverloadConfig.threshold]
  obtain ⟨r, hr, hsame⟩ := List.mem_map.mp hmem
  have hratio := h.ratios r hr
  simp only [isRatio, Bool.and_eq_true, decide_eq_true_iff] at hratio
  rw [← hsame]
  exact hratio.1

end AppConfig

/-! ### Delays that do not grow -/

theorem powerBySquaring_one (n : Nat) : powerBySquaring 1.0 1.0 n = 1.0 := by
  have hone : (1.0 : Float) * 1.0 = 1.0 := by decide +kernel
  induction n using Nat.strongRecOn with
  | ind n ih =>
    rw [powerBySquaring]
    simp only [hone, ite_self]
    split
    · rfl
    · exact ih (n / 2) (by omega)

namespace RetryConfig

variable {c : RetryConfig}

theorem delay_steady (hsteady : c.multiplier = 1.0) (retry : Nat) : c.delay retry = c.delay 0 := by
  have hgreater : Number.fmax 1.0 1.0 = 1.0 := by decide +kernel
  simp only [delay, hsteady, hgreater, powerBySquaring_one]

theorem sumDelays_steady (hsteady : c.multiplier = 1.0) (k sum count : Nat)
    (hfits : (sum + count * c.delay 0) / 1000 ≤ maxWord) :
    c.sumDelays k sum count = .ok (sum + count * c.delay 0) := by
  induction count generalizing k sum with
  | zero => simp [sumDelays]
  | succ count ih =>
    have hsum : sum + (count + 1) * c.delay 0 = sum + c.delay 0 + count * c.delay 0 := by
      rw [Nat.succ_mul]
      omega
    rw [hsum] at hfits ⊢
    have hnext : (sum + c.delay 0) / 1000 ≤ maxWord :=
      (Nat.div_le_div_right (Nat.le_add_right _ _)).trans hfits
    rw [← ih (k + 1) _ hfits, sumDelays, delay_steady hsteady, checkedSpan, if_pos hnext]
    rfl

theorem totalBudget_steady (hsteady : c.multiplier = 1.0) (callTimeout : Nat)
    (hfits : (callTimeout + c.maxRetries * c.delay 0) / 1000 ≤ maxWord) :
    c.totalBudget callTimeout = .ok (callTimeout + c.maxRetries * c.delay 0) := by
  have hbackoff : (0 + c.maxRetries * c.delay 0) / 1000 ≤ maxWord :=
    (Nat.div_le_div_right (by omega)).trans hfits
  simp only [totalBudget, totalBackoff, sumDelays_steady hsteady 0 0 _ hbackoff]
  rw [Nat.zero_add]
  exact if_pos hfits

end RetryConfig

/-! ### One request -/

/-- Whether one request by itself, of as many as there may be, lies above the threshold. -/
def OverloadConfig.oneIsTooMany (c : OverloadConfig) : Bool :=
  match readProbe (some (RequestTracker.idle c.maxConcurrentRequests).enter.utilization) with
  | some share => decide (c.requestRatioThreshold < share)
  | none => false

/-- Whether one request by itself is an overload right away. -/
def OverloadConfig.chokesOnOne (c : OverloadConfig) : Bool :=
  c.consecutiveDetections == 1 && c.oneIsTooMany

/-- Whether the settings leave time for a first call. With bulk calls, their time budget has to end before
the clock does; without them, the tasks of a chunk must not be out of time when they begin. -/
def AppConfig.leavesTime (c : AppConfig) : Bool :=
  if c.fallback.bulkEnabled then
    match c.fallback.retry.totalBudget c.fallback.callTimeout with
    | .ok budget => decide (budget < clockEnd)
    | .error _ => false
  else decide (0 < c.executor.chunkTimeout)

/-- A pool that lets a gate work: nobody waits for it, and its use is neither critical nor above the
threshold of overload. -/
structure AppConfig.Spares (c : AppConfig) (pool : Option PoolHealth) : Prop where
  healthy : PoolHealth.isHealthy c.breaker.criticalPoolUtilization pool = true
  low : ∀ health u, pool = some health → health.utilization = .ok u →
    ¬ c.overload.dbPoolThreshold < u

namespace Engine

/-! ### The two questions -/

/-- The gate that settings describe. -/
theorem eq_begun_of_forOrders {c : AppConfig} {service : Service} {store : StatusStore}
    {pool : Option PoolHealth} {table : Table} {epoch : Int} {e : Engine Order Acknowledgement}
    (h : forOrders c service store pool table epoch = .ok e) :
    e = begun (.forOrders c service store) c.breaker c.overload pool table epoch := by
  rw [forOrders, idle_eq] at h
  split at h
  · exact (Except.ok.inj h).symm
  · cases h

theorem admitBulk_fresh {c : AppConfig} {pool : Option PoolHealth} (hpool : c.Spares pool) (wall : Int) :
    (Breaker.fresh c.breaker pool).admitBulk wall = .ok (.ok (), .fresh c.breaker pool) := by
  have hhealthy : (Breaker.fresh c.breaker pool).poolHealthy = true := hpool.healthy
  rw [Breaker.admitBulk_closed rfl, hhealthy, if_pos rfl]

section Questions

variable {c : AppConfig} {pool : Option PoolHealth} (desk : Desk Order Acknowledgement) (table : Table)
  (epoch : Int)

/-- The probes of a new gate show a breach when a batch comes exactly if this is one too many. -/
theorem seesBreach_begun (hc : c.Acceptable) (hpool : c.Spares pool) :
    c.overload.seesBreach (begun desk c.breaker c.overload pool table epoch).enterRequest.probes =
      c.overload.oneIsTooMany := by
  have hnone (kind : ResourceKind) (hkind : kind ≠ .requestRatio) : ¬ c.overload.seesBreachOf
      (begun desk c.breaker c.overload pool table epoch).enterRequest.probes kind := by
    rintro ⟨x, hx, habove⟩
    refine not_lt_readProbe (hc.threshold_pos kind) ?_ x hx habove
    intro u hu
    cases kind with
    | threadPool =>
      exact Limiter.not_lt_utilization_full (hc.threshold_pos .threadPool) _ _ (Option.some.inj hu)
    | dbPool =>
      obtain ⟨health, hhealth, hread⟩ := Option.map_eq_some_iff.mp hu
      exact hpool.low health u hhealth hread
    | memory => cases hu
    | requestRatio => exact absurd rfl hkind
  rw [Bool.eq_iff_iff, OverloadConfig.seesBreach_iff]
  constructor
  · rintro ⟨kind, hbreach⟩
    by_cases hkind : kind = .requestRatio
    · subst hkind
      obtain ⟨x, hx, habove⟩ := hbreach
      have hshare : readProbe (some (RequestTracker.idle
          c.overload.maxConcurrentRequests).enter.utilization) = some x := hx
      simp only [OverloadConfig.oneIsTooMany, hshare]
      exact decide_eq_true habove
    · exact absurd hbreach (hnone kind hkind)
  · intro hone
    unfold OverloadConfig.oneIsTooMany at hone
    split at hone
    · rename_i share hshare
      exact ⟨.requestRatio, share, hshare, of_decide_eq_true hone⟩
    · cases hone

/-- **A new gate finds its first batch an overload exactly if it chokes on one.** -/
theorem overloaded_begun (hc : c.Acceptable) (hpool : c.Spares pool) :
    ((begun desk c.breaker c.overload pool table epoch).admissionCheck
      (begun desk c.breaker c.overload pool table epoch).breaker).1.overloaded =
        c.overload.chokesOnOne := by
  have hrequired : c.overload.required ≤ (Detector.fresh c.overload).raisedStreak ↔
      c.overload.consecutiveDetections = 1 := by
    have hraised : (Detector.fresh c.overload).raisedStreak = 1 := rfl
    have hpositive := hc.detections
    rw [hraised, OverloadConfig.required]
    omega
  have hsees := seesBreach_begun desk table epoch hc hpool
  have hchecked := Detector.check_overloaded_iff (Detector.fresh c.overload)
    (begun desk c.breaker c.overload pool table epoch).enterRequest.probes
  have hconfig : (Detector.fresh c.overload).config = c.overload := rfl
  rw [hconfig, hrequired, hsees] at hchecked
  rw [Bool.eq_iff_iff, OverloadConfig.chokesOnOne, Bool.and_eq_true, beq_iff_eq, and_comm]
  exact hchecked

end Questions

/-! ### The first call -/

section FirstCall

variable {P R : Type} {e e' : Engine P R}

/-- Where only tasks that have just begun can go on, and a permit is free, a call comes next. -/
theorem Move.calls (hmove : Move e e') (hsome : e.workers ≠ [])
    (hfresh : ∀ w ∈ e.workers, w.phase = .fresh) (hidle : ∀ j ∈ e.jobs, j.isReady e = false)
    {limiter : Limiter} (hfree : e.limiter.take? = some limiter) :
    ∃ w ∈ e.workers, e'.journal =
      ⟨e.now, .singleCalled w.job w.position w.payload limiter.inFlight⟩ :: e.journal := by
  cases hmove with
  | @worker w member ready =>
    refine ⟨w, member, ?_⟩
    simp only [serveWorker, workerTurn, hfresh w member, hfree]
    rfl
  | @job j member ready =>
    rw [hidle j member] at ready
    cases ready
  | tick quiet due =>
    obtain ⟨w, hw⟩ := List.exists_mem_of_ne_nil _ hsome
    have hready := quiet.workers w hw
    rw [Worker.isReady, hfresh w hw] at hready
    cases hready

theorem Course.mem_journal (hcourse : Course e e') (hregular : e.Regular) {x : Entry P R}
    (hx : x ∈ e.journal) : x ∈ e'.journal := by
  obtain ⟨added, hjournal, _⟩ := Course.whole hcourse hregular.reached.wellFormed hregular.suited
  rw [hjournal]
  exact List.mem_append_right added hx

/-- What is performed alone is a course from the first turn to the end. -/
theorem AtRest.perform_alone (hrest : e.AtRest) (a : Assignment P) :
    ∃ done, Course ((e.addJobs [(0, a)]).unturned.serveJob (newJob e.nextNumber e.now a)) done ∧
      ((e.addJobs [(0, a)]).unturned.serveJob (newJob e.nextNumber e.now a)).Regular ∧
      done.workers = [] ∧ (e.perform [(0, a)]).1.journal = done.journal := by
  obtain ⟨hmem, hready, done, hcourse, hsettled, hdone, _⟩ := perform_first hrest a []
  have hregular := (Move.job hmem hready).regular (hrest.regular [(0, a)])
  exact ⟨done, hcourse, hregular,
    hsettled.workers (hcourse.wellFormed hregular.reached.wellFormed), congrArg (·.journal) hdone⟩

/-- Who ends in the first turn without an entry leaves the journal as it was. -/
theorem AtRest.perform_nothing (hrest : e.AtRest) {a : Assignment P} {ending : Ending R}
    (hturn : (e.addJobs [(0, a)]).unturned.jobTurn (newJob e.nextNumber e.now a) =
      (e', .finished e.now ending)) (hworkers : e'.workers = []) :
    (e.perform [(0, a)]).1.journal = e'.journal :=
  congrArg (·.journal) (hrest.perform_ended hturn hworkers).1

theorem not_joinIsReady {job deadline : Nat} (hsome : e.workers ≠ [])
    (hown : ∀ w ∈ e.workers, w.job = job) (hfresh : ∀ w ∈ e.workers, w.phase = .fresh)
    (htime : e.now < deadline) : e.joinIsReady job deadline = false := by
  have hall : e.workersOf job = e.workers := by
    rw [workersOf, List.filter_eq_self]
    intro w hw
    simpa using hown w hw
  have hunended : e.workers.any (·.hasEnded) = false := by
    rw [List.any_eq_false]
    intro w hw
    simp [Worker.hasEnded, hfresh w hw]
  rw [joinIsReady, hall, hunended, List.isEmpty_eq_false_iff.mpr hsome,
    decide_eq_false (Nat.not_le_of_lt htime)]
  rfl

theorem spawnWorkers_chunk_ne_nil (e : Engine P R) {tasks : List (BatchTask P)} (htasks : tasks ≠ [])
    (job number position : Nat) :
    spawnWorkers (R := R) job (tasks.take e.chunkSize) number position ≠ [] := by
  have hpositive : 1 ≤ e.chunkSize := Nat.le_max_left 1 _
  obtain ⟨first, rest, rfl⟩ := List.exists_cons_of_ne_nil htasks
  obtain ⟨n, hn⟩ : ∃ n, e.chunkSize = n + 1 := ⟨e.chunkSize - 1, by omega⟩
  rw [hn]
  exact List.cons_ne_nil _ _

/-- A first chunk that has some time begins with a call, if a permit is free and nobody else is there. -/
theorem openChunk_calls {job attempts : Nat} {a : Assignment P} {run : BatchRun P R}
    {turn : Option Nat} (hworkers : e.workers = []) (htasks : run.remaining ≠ [])
    (htime : 0 < e.desk.executor.chunkTimeout) {limiter : Limiter}
    (hfree : e.limiter.take? = some limiter)
    (hopened : e' = { (e.openChunk job attempts run).1 with
      jobs := [⟨job, a, (e.openChunk job attempts run).2, turn⟩] })
    (hregular : e'.Regular) {done : Engine P R} (hcourse : Course e' done) (hdone : done.workers = []) :
    ∃ x ∈ done.journal, x.time = e.now ∧ x.event.job = job ∧ x.event.isCall = true := by
  have hspawned : e'.workers =
      spawnWorkers job (run.remaining.take e.chunkSize) e.nextNumber run.position := by
    rw [hopened]
    simp only [openChunk, hworkers, List.nil_append]
  have hsome : e'.workers ≠ [] := by
    rw [hspawned]
    exact spawnWorkers_chunk_ne_nil e htasks _ _ _
  have hfresh : ∀ w ∈ e'.workers, w.phase = .fresh := by
    intro w hw
    rw [hspawned] at hw
    exact phase_of_mem_spawnWorkers hw
  have hown : ∀ w ∈ e'.workers, w.job = job := by
    intro w hw
    rw [hspawned] at hw
    exact job_of_mem_spawnWorkers hw
  have hnow : e'.now = e.now := by rw [hopened]; rfl
  have hidle : ∀ j ∈ e'.jobs, j.isReady e' = false := by
    intro j hj
    rw [hopened] at hj
    obtain rfl := List.mem_singleton.mp hj
    have hearly : e'.now < e.now + e.desk.executor.chunkTimeout := by omega
    exact not_joinIsReady hsome hown hfresh hearly
  have hlimiter : e'.limiter.take? = some limiter := by
    rw [hopened]
    exact hfree
  rcases hcourse.cases_head with hsame | ⟨e'', hmove, hlater⟩
  · exact absurd (hsame ▸ hdone) hsome
  · obtain ⟨w, hw, hjournal⟩ := hmove.calls hsome hfresh hidle hlimiter
    have hcalled : ⟨e'.now, .singleCalled w.job w.position w.payload limiter.inFlight⟩ ∈
        e''.journal := by
      rw [hjournal]
      exact List.mem_cons_self
    exact ⟨_, Course.mem_journal hlater (hmove.regular hregular) hcalled, hnow, hown w hw, rfl⟩

end FirstCall

/-! ### The first batch -/

/-- A batch that is an overload by itself is turned away, and nothing happens. -/
theorem AtRest.perform_overloaded {e : Engine Order Acknowledgement} (hrest : e.AtRest)
    (hreview : e.desk.review = Order.checkBatch) {orders : List Order} (hsome : orders ≠ [])
    (hreviewed : Order.Reviewed orders)
    (hadmitted : e.breaker.admitBulk e.wall = .ok (.ok (), e.breaker))
    (hover : (e.admissionCheck e.breaker).1.overloaded = true) :
    (e.perform [(0, .process orders)]).1.journal = e.journal ∧ ∃ wait,
      (e.perform [(0, .process orders)]).2 = [some (e.now, .ok (.error (.overloaded wait)))] := by
  obtain ⟨hengine, hending⟩ := (hrest.stages hreview hsome).overloaded hreviewed _ hadmitted hover
  exact ⟨congrArg (·.journal) hengine, _, hending⟩

/-- With bulk calls that have time, the first one is made right away. -/
theorem startSubmission_bulk {P R : Type} {e : Engine P R} (job : Nat) (a : Assignment P)
    (hbulk : e.desk.fallback.bulkEnabled = true) {budget : Nat}
    (hbudget : e.desk.fallback.retry.totalBudget e.desk.fallback.callTimeout = .ok budget)
    (htime : e.now + budget < clockEnd) :
    e.startSubmission job a = e.placeCall job a 1 (e.now + budget) := by
  simp only [startSubmission, hbulk, hbudget, Bool.not_true, Bool.false_eq_true, if_false]
  rw [if_pos htime, callBulk_eq, if_neg (by decide)]

/-- If the time budget lasts longer than the clock goes, a submission breaks off. -/
theorem startSubmission_overflow {P R : Type} {e : Engine P R} (job : Nat) (a : Assignment P)
    (hbulk : e.desk.fallback.bulkEnabled = true) {budget : Nat}
    (hbudget : e.desk.fallback.retry.totalBudget e.desk.fallback.callTimeout = .ok budget)
    (hlate : ¬ e.now + budget < clockEnd) :
    e.startSubmission job a = e.conclude a (.error .overflow) := by
  simp only [startSubmission, hbulk, hbudget, Bool.not_true, Bool.false_eq_true, if_false]
  exact if_neg hlate

/-- Without bulk calls, the orders that the breaker admits are sent by the first chunk. -/
theorem startSubmission_singly {e : Engine Order Acknowledgement} (job : Nat) {a : Assignment Order}
    (hsome : a.orders ≠ []) (hbulk : e.desk.fallback.bulkEnabled = false)
    (hadmitted : e.breaker.admitBulk e.wall = .ok (.ok (), e.breaker)) :
    e.startSubmission job a =
      (e.setBreaker e.breaker).openChunk job 0 (.whole (BatchTask.ofPayloads a.orders)) := by
  have htasks : (BatchTask.ofPayloads a.orders).isEmpty = false :=
    List.isEmpty_eq_false_iff.mpr (BatchTask.ofPayloads_ne_nil hsome)
  simp only [startSubmission, hbulk, Bool.not_false, if_true]
  rw [sendSingly, startBatch_eq, htasks, checkTasks_ofPayloads, hadmitted]
  rfl

def firstVisit (c : AppConfig) (service : Service) (store : StatusStore) (pool : Option PoolHealth)
    (table : Table) (epoch : Int) (orders : List Order) : Engine Order Acknowledgement :=
  ((begun (.forOrders c service store) c.breaker c.overload pool table epoch).addJobs
    [(0, .process orders)]).unturned

def firstComer (orders : List Order) : Job Order Acknowledgement := newJob 0 0 (.process orders)

section FirstBatch

variable {c : AppConfig} (service : Service) (store : StatusStore) {pool : Option PoolHealth}
  (table : Table) (epoch : Int) {orders : List Order}

theorem firstVisit_passes (hc : c.Acceptable) (hpool : c.Spares pool) (hsome : orders ≠ [])
    (hreviewed : Order.Reviewed orders) (hfits : c.overload.chokesOnOne = false) :
    let start := firstVisit c service store pool table epoch orders
    start.jobTurn (firstComer orders) =
      ((start.enterRequest.setBreaker start.breaker).setDetector
        (start.admissionCheck start.breaker).2).startSubmission 0 (.process orders) := by
  intro start
  have hsome' : (Assignment.process orders).orders ≠ [] := hsome
  have hreview : start.desk.review (Assignment.process orders).orders = .ok () :=
    Order.checkBatch_eq_ok_iff.mpr hreviewed
  have hadmitted : start.breaker.admitBulk start.wall = .ok (.ok (), start.breaker) :=
    admitBulk_fresh hpool _
  have hover : (start.admissionCheck start.breaker).1.overloaded = false :=
    (overloaded_begun (.forOrders c service store) table epoch hc hpool).trans hfits
  have hturn : start.jobTurn (firstComer orders) = start.startAdmission 0 (.process orders) := rfl
  rw [hturn, startAdmission_asked hsome' hreview hadmitted, checkOverload_healthy hover]

/-- **The first batch that a gate takes is sent at once**, if the settings leave time for a call. -/
theorem firstVisit_calls (hc : c.Acceptable) (hpool : c.Spares pool) (hsome : orders ≠ [])
    (hreviewed : Order.Reviewed orders) (hfits : c.overload.chokesOnOne = false)
    (htime : c.leavesTime = true) {done : Engine Order Acknowledgement}
    (hcourse : Course ((firstVisit c service store pool table epoch orders).serveJob
      (firstComer orders)) done)
    (hregular : ((firstVisit c service store pool table epoch orders).serveJob
      (firstComer orders)).Regular) (hdone : done.workers = []) :
    ∃ x ∈ done.journal, x.time = 0 ∧ x.event.job = 0 ∧ x.event.isCall = true := by
  have hpasses := firstVisit_passes service store table epoch hc hpool hsome hreviewed hfits
  cases hbulk : c.fallback.bulkEnabled with
  | true =>
    obtain ⟨budget, hbudget, hlate⟩ : ∃ budget,
        c.fallback.retry.totalBudget c.fallback.callTimeout = .ok budget ∧ 0 + budget < clockEnd := by
      rw [AppConfig.leavesTime, hbulk, if_pos rfl] at htime
      split at htime
      · rename_i budget hbudget
        exact ⟨budget, hbudget, by simpa using htime⟩
      · cases htime
    have hturn := hpasses.trans (startSubmission_bulk 0 (.process orders) hbulk hbudget hlate)
    have hcalled : ⟨0, .bulkCalled 0 orders⟩ ∈ ((firstVisit c service store pool table epoch
        orders).serveJob (firstComer orders)).journal := by
      simp only [serveJob, hturn]
      exact List.mem_cons_self
    exact ⟨_, Course.mem_journal hcourse hregular hcalled, rfl, rfl, rfl⟩
  | false =>
    have hsome' : (Assignment.process orders).orders ≠ [] := hsome
    have hturn := hpasses.trans (startSubmission_singly 0 hsome' hbulk (admitBulk_fresh hpool _))
    have hsometime : 0 < c.executor.chunkTimeout := by
      simpa [AppConfig.leavesTime, hbulk] using htime
    have hfree : (Limiter.full c.executor.maxConcurrency c.executor.permitTimeout).take? =
        some { Limiter.full c.executor.maxConcurrency c.executor.permitTimeout with
          free := c.executor.maxConcurrency - 1, inFlight := 1 } :=
      if_pos ⟨Nat.pos_of_ne_zero hc.concurrency, rfl⟩
    have hopened : (firstVisit c service store pool table epoch orders).serveJob
        (firstComer orders) = { ((firstVisit c service store pool table epoch orders).jobTurn
          (firstComer orders)).1 with
          jobs := [{ firstComer orders with stage := ((firstVisit c service store pool table epoch
            orders).jobTurn (firstComer orders)).2 }] } := by
      simp only [serveJob, hturn]
      rfl
    rw [hturn] at hopened
    exact openChunk_calls rfl (BatchTask.ofPayloads_ne_nil hsome) hsometime hfree hopened hregular
      hcourse hdone

/-- **A new gate lets its first batch in, unless it chokes on one.** Settings that are accepted make a
gate whose breaker admits. Its detector turns a batch away that comes alone exactly if one breaching check
is enough and one request, as a share of those that there may be, lies above the threshold; then nothing
else happens. Otherwise the batch is sent, and if the settings leave time for a call, one is made at
once. -/
theorem first_batch_let_in {service : Service} {store : StatusStore} {table : Table} {epoch : Int}
    {e : Engine Order Acknowledgement}
    (hgate : forOrders c service store pool table epoch = .ok e) (hvalid : c.isValid = true)
    (hpool : c.Spares pool) (hsome : orders ≠ []) (hreviewed : Order.Reviewed orders) :
    e.breaker.admitBulk e.wall = .ok (.ok (), e.breaker) ∧
    (e.admissionCheck e.breaker).1.overloaded = c.overload.chokesOnOne ∧
    (c.overload.chokesOnOne = true → (e.perform [(0, .process orders)]).1.journal = [] ∧ ∃ wait,
      (e.perform [(0, .process orders)]).2 = [some (0, .ok (.error (.overloaded wait)))]) ∧
    (c.overload.chokesOnOne = false →
      (let start := (e.addJobs [(0, .process orders)]).unturned
       start.jobTurn (newJob 0 0 (.process orders)) =
        ((start.enterRequest.setBreaker start.breaker).setDetector
          (start.admissionCheck start.breaker).2).startSubmission 0 (.process orders)) ∧
      (c.leavesTime = true → ∃ x ∈ (e.perform [(0, .process orders)]).1.journal,
        x.time = 0 ∧ x.event.job = 0 ∧ x.event.isCall = true)) := by
  have hc := AppConfig.isValid_iff.mp hvalid
  obtain rfl := eq_begun_of_forOrders hgate
  have hrest := begun_atRest (.forOrders c service store) c.breaker c.overload pool table epoch
  refine ⟨admitBulk_fresh hpool _, overloaded_begun _ table epoch hc hpool, ?_, ?_⟩
  · intro hchokes
    exact hrest.perform_overloaded rfl hsome hreviewed (admitBulk_fresh hpool _)
      ((overloaded_begun _ table epoch hc hpool).trans hchokes)
  · intro hfits
    refine ⟨firstVisit_passes service store table epoch hc hpool hsome hreviewed hfits, fun htime => ?_⟩
    obtain ⟨done, hcourse, hregular, hdone, hjournal⟩ := hrest.perform_alone (.process orders)
    rw [hjournal]
    exact firstVisit_calls service store table epoch hc hpool hsome hreviewed hfits htime hcourse
      hregular hdone

/-- With the settings that a gate has unless something else is given, and half of its pool in use, a first
order is sent at once. -/
theorem default_first_batch_let_in :
    let order := Order.limit 1 0 "C-1" "ACME" .buy (.ofNat 1) (.ofNat 10)
    let service : Service := { bulk := fun _ _ => .hangs, single := fun _ _ => .hangs }
    let c : AppConfig := {}
    let pool : PoolHealth := { utilization := .ok 0.5, waiting := .ok 0 }
    let e := begun (.forOrders c service (.table 0)) c.breaker c.overload pool (Table.ofIds [1]) 0
    forOrders c service (.table 0) pool (Table.ofIds [1]) 0 = .ok e ∧ c.isValid = true ∧
      c.Spares pool ∧ [order] ≠ [] ∧ Order.Reviewed [order] ∧ c.overload.chokesOnOne = false ∧
      c.leavesTime = true ∧ ∃ x ∈ (e.perform [(0, .process [order])]).1.journal,
        x.time = 0 ∧ x.event.job = 0 ∧ x.event.isCall = true := by
  intro order service c pool e
  have hgate : forOrders c service (.table 0) pool (Table.ofIds [1]) 0 = .ok e := rfl
  have hvalid : c.isValid = true := by decide +kernel
  have hspares : c.Spares pool := by
    refine ⟨by decide +kernel, ?_⟩
    rintro health u hhealth hread
    cases hhealth
    cases hread
    decide +kernel
  have hreviewed : Order.Reviewed [order] := Order.checkBatch_eq_ok_iff.mp (by decide +kernel)
  have hfits : c.overload.chokesOnOne = false := by decide +kernel
  have htime : c.leavesTime = true := by decide +kernel
  have hlet := first_batch_let_in hgate hvalid hspares (List.cons_ne_nil order []) hreviewed
  exact ⟨hgate, hvalid, hspares, List.cons_ne_nil _ _, hreviewed, hfits, htime,
    (hlet.2.2.2 hfits).2 htime⟩

/-- Three settings that are accepted and let no call through. With room for one request only, the first
batch is an overload by itself. Without bulk calls and without time for a chunk, the tasks are out of time
when they begin. And where the time budget lasts longer than the clock goes, the submission breaks off. -/
theorem accepted_without_call :
    let order := Order.limit 1 0 "C-1" "ACME" .buy (.ofNat 1) (.ofNat 10)
    let service : Service := { bulk := fun _ _ => .hangs, single := fun _ _ => .hangs }
    let crowded : AppConfig := { overload := { maxConcurrentRequests := 1 } }
    let hasty : AppConfig :=
      { executor := { permitTimeout := 0, taskTimeout := 0 }, fallback := { bulkEnabled := false } }
    let endless : AppConfig :=
      { fallback := { retry := { maxRetries := 600, baseDelay := maxWord, multiplier := 1.0 } } }
    let gate (c : AppConfig) :=
      begun (.forOrders c service (.table 0)) c.breaker c.overload none (Table.ofIds [1]) 0
    let result (c : AppConfig) := (gate c).perform [(0, .process [order])]
    Order.Reviewed [order] ∧
      (∀ c ∈ [crowded, hasty, endless], c.isValid = true ∧ c.Spares none ∧
        forOrders c service (.table 0) none (Table.ofIds [1]) 0 = .ok (gate c) ∧
        (result c).1.journal.countP (·.event.isCall) = 0) ∧
      ∃ wait, (result crowded).2 = [some (0, .ok (.error (.overloaded wait)))] := by
  intro order service crowded hasty endless gate result
  have hreviewed : Order.Reviewed [order] := Order.checkBatch_eq_ok_iff.mp (by decide +kernel)
  have hspares (c : AppConfig) : c.Spares none := ⟨rfl, nofun⟩
  have hvalid : ∀ c ∈ [crowded, hasty, endless], c.isValid = true := by decide +kernel
  have hpermits : ∀ c ∈ [crowded, hasty, endless],
      c.executor.maxConcurrency ≤ Limiter.maxCapacity := by decide
  have hcrowded : (result crowded).1.journal.countP (·.event.isCall) = 0 := by decide +kernel
  have hhasty : (result hasty).1.journal.countP (·.event.isCall) = 0 := by decide +kernel
  -- The delays of the third settings are too many to be added up one by one.
  have hendless : (result endless).1.journal = [] := by
    have hc := AppConfig.isValid_iff.mp (hvalid endless (by simp))
    have hfits : endless.overload.chokesOnOne = false := by decide +kernel
    have hbudget : endless.fallback.retry.totalBudget endless.fallback.callTimeout =
        .ok (60000 + 600 * endless.fallback.retry.delay 0) :=
      RetryConfig.totalBudget_steady rfl 60000 (by decide +kernel)
    have hpasses := firstVisit_passes service (.table 0) (Table.ofIds [1]) 0 hc (hspares endless)
      (List.cons_ne_nil order []) hreviewed hfits
    have hturn := hpasses.trans (startSubmission_overflow 0 _ rfl hbudget (by decide +kernel))
    exact (begun_atRest _ _ _ _ _ _).perform_nothing (hturn.trans (conclude_eq _ _ _)) rfl
  have huncalled : ∀ c ∈ [crowded, hasty, endless],
      (result c).1.journal.countP (·.event.isCall) = 0 := by
    rw [List.forall_mem_cons, List.forall_mem_cons, List.forall_mem_singleton, hendless]
    exact ⟨hcrowded, hhasty, rfl⟩
  refine ⟨hreviewed, fun c hc => ⟨hvalid c hc, hspares c, ?_, huncalled c hc⟩, ?_⟩
  · exact if_pos (hpermits c hc)
  · have hc := AppConfig.isValid_iff.mp (hvalid crowded (List.mem_cons_self))
    have hchokes : crowded.overload.chokesOnOne = true := by decide +kernel
    exact ((begun_atRest _ _ _ _ _ _).perform_overloaded rfl (List.cons_ne_nil _ _) hreviewed
      (admitBulk_fresh (hspares crowded) _)
      ((overloaded_begun _ _ _ hc (hspares crowded)).trans hchokes)).2

end FirstBatch

end Engine

end OrderAdmission
