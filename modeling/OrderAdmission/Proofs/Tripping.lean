import OrderAdmission.Proofs.Accounting
import OrderAdmission.Proofs.Admission

/-!
# A circuit that opens in front of a submission

A bulk call may fail in such a way that the circuit is open once the failure is on its count. The
submission has other calls in mind then: another bulk call, or one for each of its orders. Three checks
stand in between, the limit of the retries, the question after the failure, and the admission of the
orders. They are made in the turn of the failure, but the last two read the wall clock anew. If it shows
no more than the recovery timeout more than at the failure, no quiet time has passed for them, however
short the timeout is. Then the open circuit refuses whoever asks, and **the submission ends in this very
turn and makes no call any more**.

If the wall clock has gone on for longer between the readings, which with a recovery timeout of zero takes
no more than a millisecond, **the question closes the circuit again, and the submission calls on**
(`second_call_through_closed_circuit`).
-/
namespace OrderAdmission

variable {P R : Type}

/-- The error of a submission that meets an open circuit after this failure: the circuit, if the orders
may go one by one, and otherwise the failure, which may be tried again. -/
structure FallbackConfig.Stops (c : FallbackConfig) (size : Nat) (failure : DownstreamFailure)
    (error : GateError) : Prop where
  eligible : c.Eligible size → ∃ failures retryAfter, error = .circuitOpen failures retryAfter
  barred : ¬ c.Eligible size → error = .downstream failure true

namespace Engine

/-- The failure of the bulk call that a job waits for, if the call has failed. -/
def callFailure? (e : Engine P R) (j : Job P R) : Option DownstreamFailure :=
  match j.stage with
  | .calling run => e.bulkFailure? j.assignment.orders run
  | _ => none

theorem callFailure?_eq_some {e : Engine P R} {j : Job P R} {failure : DownstreamFailure}
    (h : e.callFailure? j = some failure) :
    ∃ run, j.stage = .calling run ∧ e.bulkFailure? j.assignment.orders run = some failure := by
  unfold callFailure? at h
  split at h
  · rename_i run hstage
    exact ⟨run, hstage, h⟩
  · cases h

/-- A turn in which a bulk call has failed in a way that calls for another attempt, and the circuit is
open with this failure on its count. No quiet time passes for the two checks after it, by the readings of
the wall clock that they may make. -/
structure Trips (failure : DownstreamFailure) (e : Engine P R) (j : Job P R) : Prop where
  failed : e.callFailure? j = some failure
  triggers : e.desk.fallback.retry.triggers failure = true
  opens : (e.breaker.recordFailure e.wall).phase = .open_
  early : ∀ n ∈ [1, 2], e.wallAfter n ≤ e.wall + e.breaker.config.recoveryTimeout

section Turn

variable {e : Engine P R} {a : Assignment P} {failure : DownstreamFailure}

/-- The executor does not take orders from behind an open circuit. It may have read the wall clock. -/
theorem fallBack_refused (job attempts : Nat) (failure : DownstreamFailure) (hsome : a.orders ≠ [])
    (hword : e.breaker.config.recoveryTimeout < maxWord) (hopen : e.breaker.phase = .open_)
    (hstill : ¬ e.breaker.Recovers e.wall) : ∃ error readings,
      e.desk.fallback.Stops a.orders.length failure error ∧
      e.fallBack job a attempts failure = { e with readings }.conclude a (.ok (.error error)) := by
  by_cases heligible : e.desk.fallback.Eligible a.orders.length
  · have htasks : (BatchTask.ofPayloads a.orders).isEmpty = false :=
      List.isEmpty_eq_false_iff.mpr (BatchTask.ofPayloads_ne_nil hsome)
    have hrefused : e.fallBack job a attempts failure =
        (e.setBreaker e.breaker).conclude a (.ok (.error (.circuitOpen e.breaker.failures.toNat
          (Breaker.hintSeconds
            (e.breaker.config.recoveryTimeout + 1 - e.breaker.quietTime e.wall))))) := by
      rw [fallBack_eligible e job attempts a failure heligible, sendSingly, startBatch_eq, htasks,
        checkTasks_ofPayloads, Breaker.admitBulk_refuses hword hopen hstill]
      rfl
    exact ⟨_, _, ⟨fun _ => ⟨_, _, rfl⟩, fun hbarred => absurd heligible hbarred⟩, hrefused⟩
  · exact ⟨_, e.readings, ⟨fun h => absurd h heligible, fun _ => rfl⟩,
      fallBack_barred e job attempts a failure heligible⟩

/-- After a failure that leaves the circuit open, there is no way on. -/
theorem bulkFailed_tripped (job : Nat) {run : BulkRun R} (hsome : a.orders ≠ [])
    (hword : e.breaker.config.recoveryTimeout < maxWord)
    (htriggers : e.desk.fallback.retry.triggers failure = true)
    (hopen : (e.breaker.recordFailure e.wall).phase = .open_)
    (hearly : ∀ n ∈ [1, 2], e.wallAfter n ≤ e.wall + e.breaker.config.recoveryTimeout) :
    ∃ error readings, e.desk.fallback.Stops a.orders.length failure error ∧
      e.bulkFailed job a run failure =
        { e.report job .failure with readings }.conclude a (.ok (.error error)) := by
  have hword' : (e.breaker.recordFailure e.wall).config.recoveryTimeout < maxWord := by
    rw [Breaker.recordFailure_config]
    exact hword
  let told := e.report job .failure
  have hstill : ¬ told.breaker.Recovers told.wall := by
    have hnext : told.wall = e.wallAfter 1 := wallAfter_report e job .failure 0
    rw [hnext]
    exact Breaker.not_recovers_within e.breaker (hearly 1 (by simp))
  rw [bulkFailed_eq]
  simp only [htriggers, Bool.not_true, Bool.false_eq_true, if_false]
  split
  · obtain ⟨error, readings, hstops, hrefused⟩ := fallBack_refused (e := told) job run.attempt failure
      hsome hword' hopen hstill
    exact ⟨error, readings, hstops, hrefused⟩
  · -- The question after the failure gets no as an answer, and changes nothing.
    have hasked : told.breaker.allow told.wall = .ok (false, told.breaker) :=
      Breaker.allow_refuses hword' hopen hstill
    have hstill' : ¬ told.breaker.Recovers (told.setBreaker told.breaker).wall := by
      have hnext : (told.setBreaker told.breaker).wall = e.wallAfter 2 :=
        wallAfter_report e job .failure 1
      rw [hnext]
      exact Breaker.not_recovers_within e.breaker (hearly 2 (by simp))
    obtain ⟨error, readings, hstops, hrefused⟩ := fallBack_refused
      (e := told.setBreaker told.breaker) job run.attempt failure hsome hword' hopen hstill'
    refine ⟨error, readings, hstops, ?_⟩
    rw [hasked]
    exact hrefused

/-- **A turn in which the circuit opens is the last of a submission.** It reports the failure and
ends. -/
theorem Trips.turn {j : Job P R} (h : Trips failure e j) (hsome : j.assignment.orders ≠ [])
    (hword : e.breaker.config.recoveryTimeout < maxWord) : ∃ error readings,
      e.desk.fallback.Stops j.assignment.orders.length failure error ∧
      e.jobTurn j = { (e.heard j).report j.number .failure with readings }.conclude j.assignment
        (.ok (.error error)) := by
  obtain ⟨run, hstage, hfailure⟩ := callFailure?_eq_some h.failed
  have hheard : e.heard j = e.heardBulk j.number run := by rw [heard, hstage]
  have hbreaker : (e.heard j).breaker = e.breaker := by rw [heard_eq]
  have hwall : (e.heard j).wall = e.wall := by rw [heard_eq]; rfl
  have hturn : e.jobTurn j = (e.heard j).bulkFailed j.number j.assignment run failure := by
    simp only [jobTurn, hstage]
    rw [bulkTurn_failed _ _ hfailure, hheard]
  rw [hturn, ← heard_desk e j]
  refine bulkFailed_tripped j.number hsome ?_ ?_ ?_ ?_
  · rw [hbreaker]
    exact hword
  · rw [heard_desk]
    exact h.triggers
  · rw [hbreaker, hwall]
    exact h.opens
  · intro n hn
    have hnext : (e.heard j).wallAfter n = e.wallAfter n := by rw [heard_eq]; rfl
    rw [hnext, hwall, hbreaker]
    exact h.early n hn

end Turn

/-! ### What follows after the turn -/

/-- This turn is the last of the job. It leaves the circuit open and ends with an error of this kind, and
whatever happens afterwards, the job has made its last call. If nobody else sends, the circuit stays
open. -/
structure Halts (failure : DownstreamFailure) (e : Engine P R) (j : Job P R) : Prop where
  breaker : (e.serveJob j).breaker = e.breaker.recordFailure e.wall
  open_ : (e.serveJob j).breaker.phase = .open_
  ends : ∃ error, e.desk.fallback.Stops j.assignment.orders.length failure error ∧
    ∀ done, Course (e.serveJob j) done →
      (∃ k ∈ done.jobs, k.number = j.number ∧ k.ending? = some (e.now, .ok (.error error))) ∧
      Adds (fun event => event.job = j.number → event.isCall = false) e done ∧
      (e.SoleSender j.number → done.breaker.phase = .open_)

/-- What the turn leaves behind: the error, the failure on the count of the breaker, and no call. -/
theorem Trips.served {e : Engine P R} {j : Job P R} {failure : DownstreamFailure}
    (h : Trips failure e j) (hsome : j.assignment.orders ≠ [])
    (hword : e.breaker.config.recoveryTimeout < maxWord) : ∃ error,
      e.desk.fallback.Stops j.assignment.orders.length failure error ∧
      (e.jobTurn j).2 = .finished e.now (.ok (.error error)) ∧
      (e.serveJob j).breaker = e.breaker.recordFailure e.wall ∧
      Adds (fun event => event.isCall = false) e (e.serveJob j) := by
  obtain ⟨error, readings, hstops, hturn⟩ := h.turn hsome hword
  have htold : Adds (fun event => event.isCall = false) e
      ((e.heard j).report j.number .failure) := by
    refine ((heard_journal e j).mono ?_).trans (.one rfl rfl)
    rintro event ⟨answer, rfl⟩
    rfl
  refine ⟨error, hstops, ?_, ?_, ?_⟩
  · rw [hturn, conclude_eq, heard_eq]
    rfl
  · simp only [serveJob, hturn, conclude_eq]
    rw [heard_eq]
    rfl
  · simp only [serveJob, hturn, conclude_eq]
    exact htold.trans (.nothing rfl)

/-- Once a job has ended and nobody else sends, nobody has anything to tell the breaker. -/
theorem Course.breaker_of_ended {e e' : Engine P R} (hcourse : Course e e') (hregular : e.Regular)
    {j : Job P R} (hj : j ∈ e.jobs) {time : Nat} {ending : Ending R}
    (hstage : j.stage = .finished time ending) (hpast : e.Past j.number)
    (hsole : e.SoleSender j.number) : e'.breaker = e.breaker := by
  obtain ⟨later, hlater, hheard⟩ := Course.feeds hcourse hregular hsole hpast
  have hnone := Course.tellings_of_ended hcourse hregular hj hstage
  rw [tellings_eq j.number hlater] at hnone
  rw [hheard, hnone]
  rfl

/-- When the circuit opens in front of a submission, the submission halts. -/
theorem Trips.halts {e : Engine P R} (hregular : e.Regular) {j : Job P R} (hj : j ∈ e.jobs)
    (hready : j.isReady e = true) {failure : DownstreamFailure} (h : Trips failure e j)
    (hsome : j.assignment.orders ≠ []) (hword : e.breaker.config.recoveryTimeout < maxWord) :
    Halts failure e j := by
  have hwf := hregular.reached.wellFormed
  have hserved := (Move.job hj hready).regular hregular
  have hself := self_mem_serveJob hwf hj hready
  obtain ⟨error, hstops, hstage, hbreaker, hsilent⟩ := h.served hsome hword
  have hopen : (e.serveJob j).breaker.phase = .open_ := by
    rw [hbreaker]
    exact h.opens
  have hpast : (e.serveJob j).Past j.number := by
    intro k hk hnumber
    rcases mem_serveJob hwf hj hready hk with rfl | ⟨_, hother⟩
    · simp only [hstage, Stage.isSending]
    · exact absurd hnumber hother
  refine ⟨hbreaker, hopen, error, hstops, ?_⟩
  intro done hafter
  obtain ⟨hdone, hothers⟩ := Course.ended hafter hserved hself hstage
  refine ⟨⟨_, hdone, rfl, ?_⟩, ?_, ?_⟩
  · simp only [Job.ending?, hstage]
  · -- The turn itself makes no call, and afterwards the entries are about others.
    have hnone : Adds (fun event => event.job = j.number → event.isCall = false) e (e.serveJob j) :=
      hsilent.mono fun _ hnone _ => hnone
    exact hnone.trans (hothers.mono fun _ hother hown => (hother hown).elim)
  · intro hsole
    rw [Course.breaker_of_ended hafter hserved hself hstage hpast
      ((Move.job hj hready).soleSender hwf hsole)]
    exact hopen

/-! ### Bulk calls are made for orders -/

end Engine

/-- Whether a job at this stage waits for a bulk call, or for the time of the next one. -/
def Stage.isCallingBulk : Stage P R → Bool
  | .calling _ | .backingOff _ _ _ => true
  | _ => false

namespace Engine

/-- Bulk calls are made for orders. -/
def Earnest (e : Engine P R) : Prop :=
  ∀ j ∈ e.jobs, j.stage.isCallingBulk = true → j.assignment.orders ≠ []

theorem earnest_turn {e : Engine P R} (hregular : e.Regular) {j : Job P R} (hj : j ∈ e.jobs)
    (hready : j.isReady e = true) (hearnest : e.Earnest)
    (hnext : (e.jobTurn j).2.isCallingBulk = true) : j.assignment.orders ≠ [] := by
  have hwf := hregular.reached.wellFormed
  have hserved := (Move.job hj hready).regular hregular
  have hsuits : (e.jobTurn j).2.Suits j.assignment :=
    hserved.suited _ (self_mem_serveJob hwf hj hready)
  have hsubmission : j.assignment.isSubmission = true := by
    cases hstage : (e.jobTurn j).2 with
    | calling run | backingOff attempt deadline due =>
      rw [hstage] at hsuits
      exact hsuits
    | _ =>
      rw [hstage] at hnext
      cases hnext
  cases hstage : j.stage with
  | calling run | backingOff attempt deadline due => exact hearnest j hj (by rw [hstage]; rfl)
  | arriving due =>
    -- Without orders, a submission ends in its first turn.
    intro hnone
    rw [jobTurn_of_arriving e (by rw [hstage]; rfl)] at hnext
    cases hassignment : j.assignment with
    | submit orders | process orders =>
      rw [hassignment] at hnext hnone
      obtain rfl : orders = [] := hnone
      cases hnext
    | _ =>
      rw [hassignment] at hsubmission
      cases hsubmission
  | _ =>
    have hpast := ((hregular.suited.route hwf hj hready).past (by rw [hstage]; rfl)).stage
    cases hturn : (e.jobTurn j).2 with
    | calling run | backingOff attempt deadline due =>
      rw [hturn] at hpast
      cases hpast
    | _ =>
      rw [hturn] at hnext
      cases hnext

theorem Move.earnest {e e' : Engine P R} (hmove : Move e e') (hregular : e.Regular)
    (h : e.Earnest) : e'.Earnest := by
  intro k hk hstage
  rcases hmove.mem_jobs hregular.reached.wellFormed hk with hold | ⟨j, hj, hready, rfl⟩
  · exact h k hold hstage
  · have hnext : j.assignment.orders ≠ [] := earnest_turn hregular hj hready h hstage
    exact hnext

theorem Course.earnest {e e' : Engine P R} (hcourse : Course e e') (hregular : e.Regular)
    (h : e.Earnest) : e'.Earnest := by
  have hall := hcourse.keeps (I := fun e₁ => e₁.Regular ∧ e₁.Earnest)
    (fun hmove hi => ⟨hmove.regular hi.1, hmove.earnest hi.1 hi.2⟩) ⟨hregular, h⟩
  exact hall.2

theorem AtRest.earnest {e : Engine P R} (hrest : e.AtRest)
    (assignments : List (Nat × Assignment P)) : (e.addJobs assignments).unturned.Earnest := by
  intro j hj hcalling
  obtain ⟨due, hstage⟩ := hrest.arriving hj
  rw [hstage] at hcalling
  cases hcalling

/-! ### Every submission -/

/-- **An open circuit stops a submission.** On every course, a submission halts in the turn in which a
bulk call of it has failed in a way that calls for another attempt, if the circuit is open with this
failure on its count and no quiet time passes between the readings of the wall clock in this turn. What is
performed comes to such an end as well: the submission returns the error, and if nobody else sends, the
circuit is open in the end. -/
theorem open_circuit_stops_submission {e : Engine P R} (hrest : e.AtRest)
    (hword : e.breaker.config.recoveryTimeout < maxWord) (assignments : List (Nat × Assignment P)) :
    (∀ e' j failure, Course (e.addJobs assignments).unturned e' → j ∈ e'.jobs →
      j.isReady e' = true → Trips failure e' j → Halts failure e' j) ∧
    ∃ done, Course (e.addJobs assignments).unturned done ∧
      (e.perform assignments).1.journal = done.journal ∧
      (e.perform assignments).1.breaker = done.breaker ∧
      ∀ i wait a failure, assignments[i]? = some (wait, a) →
        Took (e.addJobs assignments).unturned done (e.nextNumber + i) (Trips failure) →
        ∃ time error, e.desk.fallback.Stops a.orders.length failure error ∧
          (e.perform assignments).2[i]? = some (some (time, .ok (.error error))) ∧
          ((e.addJobs assignments).unturned.SoleSender (e.nextNumber + i) →
            (e.perform assignments).1.breaker.phase = .open_) := by
  have hout := hrest.outset assignments
  have hwf := hout.regular.reached.wellFormed
  have hstart : (e.addJobs assignments).unturned.breaker = e.breaker ∧
      (e.addJobs assignments).unturned.desk = e.desk := by
    rw [addJobs_eq]
    exact ⟨rfl, rfl⟩
  have hcourses (e' : Engine P R) (j : Job P R) (failure : DownstreamFailure)
      (hcourse : Course (e.addJobs assignments).unturned e') (hj : j ∈ e'.jobs)
      (hready : j.isReady e' = true) (htrips : Trips failure e' j) : Halts failure e' j := by
    have hregular := Course.regular hcourse hout.regular
    have hsome : j.assignment.orders ≠ [] := by
      obtain ⟨run, hstage, _⟩ := callFailure?_eq_some htrips.failed
      exact Course.earnest hcourse hout.regular (hrest.earnest assignments) j hj (by rw [hstage]; rfl)
    refine htrips.halts hregular hj hready hsome ?_
    rw [Course.config hcourse hout.regular, hstart.1]
    exact hword
  refine ⟨hcourses, ?_⟩
  obtain ⟨done, hcourse, _, _, hdone, hendings⟩ := perform_course hrest assignments
  have hjournal := congrArg (·.journal) hdone
  have hbreaker := congrArg (·.breaker) hdone
  change (e.perform assignments).1.breaker = done.breaker at hbreaker
  refine ⟨done, hcourse, hjournal, hbreaker, ?_⟩
  rintro i wait a failure hassigned ⟨e₁, j, hbefore, hj, hnumber, hready, htrips, hafter⟩
  obtain ⟨_, _, error, hstops, hlater⟩ := hcourses e₁ j failure hbefore hj hready htrips
  obtain ⟨⟨k, hk, hsame, hending⟩, _, hstays⟩ := hlater done hafter
  obtain ⟨k', hk', hnumber', hassignment⟩ := hrest.exists_job hbefore hassigned
  obtain rfl : k' = j := (Course.wellFormed hbefore hwf).job_unique (List.mem_of_getElem? hk') hj
    (hnumber'.trans hnumber.symm)
  refine ⟨e₁.now, error, ?_, ?_, ?_⟩
  · rw [← hassignment, ← hstart.2, ← Course.desk hbefore hwf]
    exact hstops
  · rw [hendings, hrest.getElem?_endings hcourse hk (hsame.trans hnumber), hending]
  · intro hsole
    rw [hbreaker]
    refine hstays (Course.soleSender hbefore hout.regular ?_)
    rw [hnumber]
    exact hsole

/-- One failure opens the circuit, and no quiet time is asked for. The first bulk call fails at once, and
with a retry left and the order fit to go alone, nothing else is called. -/
theorem first_failure_stops_submission :
    let order := Order.limit 1 0 "C-1" "ACME" .buy (.ofNat 1) (.ofNat 10)
    let failure : DownstreamFailure := { status := none, kind := .connectivity, message := "reset" }
    let service : Service :=
      { bulk := fun _ _ => .answers 0 (.error failure), single := fun _ _ => .hangs }
    let c : AppConfig := { breaker := { failureThreshold := 1, recoveryTimeout := 0 } }
    let e := begun (.forOrders c service (.table 0)) c.breaker c.overload none (Table.ofIds []) 0
    let start := (e.addJobs [(0, .submit [order])]).unturned
    let first : Job Order Acknowledgement := newJob 0 0 (.submit [order])
    let called := start.serveJob first
    e.AtRest ∧ e.breaker.config.recoveryTimeout < maxWord ∧ Course start called ∧
      ∃ j ∈ called.jobs, j.isReady called = true ∧ Trips failure called j ∧
        called.journal.countP (·.event.isCall) = 1 ∧ Halts failure called j := by
  intro order failure service c e start first called
  have hrest : e.AtRest := begun_atRest _ _ _ _ _ _
  have hword : e.breaker.config.recoveryTimeout < maxWord := by decide
  obtain ⟨hmem, hready, _⟩ := perform_first hrest (.submit [order]) []
  have hcourse : Course start called := .single (.job hmem hready)
  have hself := self_mem_serveJob (hrest.wellFormed [(0, .submit [order])]) hmem hready
  -- After the first turn, the bulk call has been made, and its answer is there.
  let j : Job Order Acknowledgement := { first with stage := (start.jobTurn first).2 }
  have hready' : j.isReady called = true := by decide +kernel
  have htrips : Trips failure called j :=
    ⟨by decide +kernel, rfl, by decide +kernel, by decide +kernel⟩
  exact ⟨hrest, hword, hcourse, j, hself, hready', htrips, by decide +kernel,
    (open_circuit_stops_submission hrest hword [(0, .submit [order])]).1 called j failure hcourse
      hself hready' htrips⟩

/-- The same settings, but the wall clock goes on by a millisecond from one reading to the next. The failure
opens the circuit, and the question after it, one reading later, closes it again. The submission makes a
second bulk call, which is answered, so that it ends without an error and with a closed circuit. -/
theorem second_call_through_closed_circuit :
    let order := Order.limit 1 0 "C-1" "ACME" .buy (.ofNat 1) (.ofNat 10)
    let failure : DownstreamFailure := { status := none, kind := .connectivity, message := "reset" }
    let taken : Acknowledgement := { reference := "X-1", status := "ACCEPTED" }
    let service : Service :=
      { bulk := fun n _ => .answers 0 (if n = 0 then .error failure else .ok [.ok taken])
        single := fun _ _ => .hangs, drift := fun n => n }
    let c : AppConfig := { breaker := { failureThreshold := 1, recoveryTimeout := 0 } }
    let e := begun (.forOrders c service (.table 0)) c.breaker c.overload none (Table.ofIds []) 0
    let start := (e.addJobs [(0, .submit [order])]).unturned
    let first : Job Order Acknowledgement := newJob 0 0 (.submit [order])
    let called := start.serveJob first
    let result := e.perform [(0, .submit [order])]
    e.AtRest ∧ e.breaker.config.recoveryTimeout < maxWord ∧ Course start called ∧
      (∃ j ∈ called.jobs, j.isReady called = true ∧ called.callFailure? j = some failure ∧
        called.desk.fallback.retry.triggers failure = true ∧
        (called.breaker.recordFailure called.wall).phase = .open_) ∧
      result.1.journal.countP (·.event.isCall) = 2 ∧ result.1.breaker.phase = .closed ∧
      result.2.map (·.map fun x => isRefusal x.2) = [some false] := by
  intro order failure taken service c e start first called result
  have hrest : e.AtRest := begun_atRest _ _ _ _ _ _
  obtain ⟨hmem, hready, _⟩ := perform_first hrest (.submit [order]) []
  have hcourse : Course start called := .single (.job hmem hready)
  have hself := self_mem_serveJob (hrest.wellFormed [(0, .submit [order])]) hmem hready
  exact ⟨hrest, by decide, hcourse,
    ⟨_, hself, by decide +kernel, by decide +kernel, rfl, by decide +kernel⟩,
    by decide +kernel, by decide +kernel, by decide +kernel⟩

end Engine

end OrderAdmission
