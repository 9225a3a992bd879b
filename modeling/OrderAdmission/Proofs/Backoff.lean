import OrderAdmission.Proofs.CallTimes
import OrderAdmission.Proofs.FirstBatch
import OrderAdmission.Proofs.Tripping

/-!
# When a retry is refused for want of time

After a bulk call that has failed, a submission compares the clock with a deadline that was set when it
began: if the next call would begin at the deadline or later, it is not made. Both are instants, and
neither tells how long the calls have taken.

But the next call begins when the calls so far and the delays up to it are over (`FallbackConfig.nextCall`),
and the deadline is one call and all delays after the beginning. The delays that have been waited out are
on both sides of the comparison. What is left of it speaks of the calls alone (`nextCall_lt_iff`): **a retry
is refused exactly if the calls have used up the time of one call and of the delays still to come**. A call
that has not been refused is made when it is due (`Course.put_off`), so this decides about the calls that
the journal has in the end.
-/
namespace OrderAdmission

variable {P R : Type}

/-! ### The comparison -/

theorem RetryConfig.waits_split (c : RetryConfig) {retries total : Nat} (h : retries ≤ total) :
    c.waits total = c.waits retries + ∑ k ∈ Finset.Ico retries total, c.delay k :=
  (Finset.sum_range_add_sum_Ico _ h).symm

namespace FallbackConfig

variable {c : FallbackConfig} {calls : List (Nat × Nat)}

/-- The time that bulk calls must not have used up together, if another one is to follow after so many:
that of one call and of the delays of all later retries. -/
def timeForCalls (c : FallbackConfig) (calls : Nat) : Nat :=
  c.callTimeout + ∑ k ∈ Finset.Ico calls c.retry.maxRetries, c.retry.delay k

theorem callTimeout_le_timeForCalls (c : FallbackConfig) (calls : Nat) :
    c.callTimeout ≤ c.timeForCalls calls := Nat.le_add_right _ _

/-- **The deadline is about the calls alone**: the delays that have been waited out do not matter. -/
theorem nextCall_lt_iff (begin : Nat) (hleft : calls.length ≤ c.retry.maxRetries) :
    c.nextCall begin calls < begin + c.timeBudget ↔ spent calls < c.timeForCalls calls.length := by
  have hwaits := c.retry.waits_split hleft
  rw [nextCall, timeBudget, timeForCalls]
  omega

end FallbackConfig

/-! ### Calls that take no time -/

theorem spent_eq_zero {calls : List (Nat × Nat)} (h : ∀ x ∈ calls, x.2 = x.1) : spent calls = 0 := by
  rw [spent, List.sum_eq_zero_iff_forall_eq_nat]
  intro n hn
  obtain ⟨x, hx, rfl⟩ := List.mem_map.mp hn
  rw [h x hx, Nat.sub_self]

namespace Desk

variable {desk : Desk P R} {orders : List P} {begin : Nat} {calls : List (Nat × Nat)}

/-- Whether every bulk call with these orders fails at once, in a way that calls for another attempt. -/
def FailsAtOnce (desk : Desk P R) (orders : List P) : Prop :=
  ∀ n, ∃ failure, desk.bulk n orders = .answers 0 (.error failure) ∧
    desk.fallback.retry.triggers failure = true

/-- The bulk calls of a submission that begins at an instant are made and have time, and all of them
fail at once. -/
structure Exhausts (desk : Desk P R) (orders : List P) (begin : Nat) : Prop where
  used : desk.fallback.bulkEnabled = true
  /-- The time budget can be computed, and it ends before the clock does. -/
  fits : ∃ budget, desk.fallback.retry.totalBudget desk.fallback.callTimeout = .ok budget ∧
    begin + budget < clockEnd
  time : 0 < desk.fallback.callTimeout
  fails : desk.FailsAtOnce orders

theorem FailsAtOnce.callEnd_eq (h : desk.FailsAtOnce orders) {first : Nat}
    (within : first ≤ begin + desk.fallback.timeBudget) (number : Nat) :
    desk.callEnd orders begin number first = first := by
  obtain ⟨failure, hbulk, _⟩ := h number
  refine Nat.le_antisymm ?_ (callEnd_limits within number).1
  rw [callEnd, hbulk]
  exact Nat.min_le_left _ _

theorem FailsAtOnce.spent_eq_zero (h : desk.FailsAtOnce orders)
    (hscheduled : desk.Scheduled orders begin calls) : spent calls = 0 := by
  refine OrderAdmission.spent_eq_zero ?_
  induction hscheduled with
  | none => exact nofun
  | after before within number ih =>
    intro x hx
    rcases List.mem_append.mp hx with hx | hx
    · exact ih x hx
    · obtain rfl := List.mem_singleton.mp hx
      exact h.callEnd_eq within number

/-- With calls that take no time, the retries begin as the delays alone say. -/
theorem FailsAtOnce.starts_eq (h : desk.FailsAtOnce orders)
    (hscheduled : desk.Scheduled orders begin calls) : calls.map (·.1) =
      (List.range calls.length).map fun k =>
        begin + ∑ l ∈ Finset.range k, desk.fallback.retry.delay l := by
  induction hscheduled with
  | none => rfl
  | @after calls before within number ih =>
    rw [List.map_append, ih, List.length_append, List.length_singleton, List.range_succ,
      List.map_append]
    simp only [List.map_cons, List.map_nil, FallbackConfig.nextCall, h.spent_eq_zero before,
      Nat.add_zero, RetryConfig.waits]

end Desk

/-! ### The journal goes on -/

theorem length_bulkStarts (job : Nat) (entries : List (Entry P R)) :
    (bulkStarts job entries).length = entries.countP (·.event.isBulkCall job) := by
  induction entries with
  | nil => rfl
  | cons x rest ih =>
    obtain ⟨time, event⟩ := x
    rw [List.countP_cons, ← ih, bulkStarts, List.filterMap_cons, bulkStarts]
    cases event with
    | bulkCalled k orders =>
      by_cases hown : k = job
      · simp [hown, Event.isBulkCall]
      · simp [hown, Event.isBulkCall]
    | _ => simp [Event.isBulkCall]

theorem length_bulkReportsIn_le (c : RetryConfig) (size job : Nat) (entries : List (Entry P R)) :
    (bulkReportsIn c size job entries).length ≤ (bulkEnds job entries).length := by
  induction entries with
  | nil => exact Nat.le_refl _
  | cons x rest ih =>
    obtain ⟨time, event⟩ := x
    rw [bulkReportsIn] at ih ⊢
    rw [bulkEnds] at ih ⊢
    rw [List.filterMap_cons, List.filterMap_cons]
    cases event with
    | bulkEnded k answer =>
      by_cases hown : k = job
      · simp only [hown, if_true]
        cases c.bulkReport? size answer with
        | none => exact Nat.le_succ_of_le ih
        | some r => exact Nat.succ_le_succ ih
      · simp only [hown, if_false]
        exact ih
    | _ => exact ih

/-! ### A few failures -/

namespace Breaker

variable {b : Breaker}

theorem record_few (hclosed : b.phase = .closed)
    (hfew : b.failures.toNat + 1 < b.config.failureThreshold) (wall : Int) (r : Report) :
    (b.record wall r).phase = .closed ∧ (b.record wall r).failures.toNat ≤ b.failures.toNat + 1 := by
  cases r with
  | success =>
    exact ⟨(b.recordSuccess_phase).trans hclosed,
      Nat.le_succ_of_le b.recordSuccess_failures_le⟩
  | failure =>
    have hcount : (b.recordFailure wall).failures.toNat ≤ b.failures.toNat + 1 := by
      rw [toNat_recordFailure]
      exact Nat.mod_le _ _
    rcases recordFailure_closed hclosed (Nat.lt_of_succ_lt hfew) wall with
      ⟨_, _, hreached⟩ | ⟨hstays, _, _⟩
    · exact absurd (hreached ▸ hcount) (Nat.not_le_of_lt hfew)
    · exact ⟨hstays, hcount⟩

/-- As long as the reports are too few to reach the threshold, the circuit stays closed, and there is no
question that could close it. -/
theorem Hears.few {b' : Breaker} {reports : List (Int × Report)} (h : b.Hears reports b')
    (hclosed : b.phase = .closed)
    (hfew : b.failures.toNat + reports.length < b.config.failureThreshold) :
    b'.phase = .closed ∧ b'.failures.toNat ≤ b.failures.toNat + reports.length := by
  induction h with
  | nothing => exact ⟨hclosed, Nat.le_refl _⟩
  | @told reports b' wall r before ih =>
    rw [List.length_append, List.length_singleton] at hfew ⊢
    obtain ⟨hphase, hfailures⟩ := ih (by omega)
    obtain ⟨hstays, hcount⟩ := record_few hphase (by rw [before.config]; omega) wall r
    exact ⟨hstays, by omega⟩
  | @closed reports b' wall wall' before recovers ih =>
    rw [List.length_append, List.length_singleton] at hfew
    obtain ⟨hphase, hfailures⟩ := ih (by omega)
    obtain ⟨hstays, _⟩ := record_few hphase (by rw [before.config]; omega) wall .failure
    exact absurd (recovers.1.symm.trans hstays) (by decide)

end Breaker

namespace Engine

section Grow

variable {start e e' : Engine P R}

/-- What the journal has of bulk calls is only added to. -/
theorem Course.bulkStarts_grow (hbefore : Course start e) (hregular : start.Regular)
    (hafter : Course e e') (job : Nat) : ∃ more,
      bulkStarts job (e'.since start.journal.length) =
        bulkStarts job (e.since start.journal.length) ++ more ∧
      e'.bulkCount job = e.bulkCount job + more.length := by
  have hregular' := Course.regular hbefore hregular
  obtain ⟨added, hadded, _⟩ := Course.whole hbefore hregular.reached.wellFormed hregular.suited
  have hlater := Course.whole hafter hregular'.reached.wellFormed hregular'.suited
  have hcount := bulkCount_eq_since hlater job
  obtain ⟨later, hjournal, _⟩ := hlater
  have hwhole : e'.journal = (later ++ added) ++ start.journal := by
    rw [hjournal, hadded, List.append_assoc]
  refine ⟨bulkStarts job (e'.since e.journal.length), ?_, ?_⟩
  · rw [since_eq hwhole, since_eq hadded, since_eq hjournal, List.reverse_append, bulkStarts_append]
  · rw [hcount, length_bulkStarts]

/-- A call that has been made stays in the journal. -/
theorem Course.getElem?_bulkStarts (hbefore : Course start e) (hregular : start.Regular)
    (hafter : Course e e') {job k t : Nat}
    (h : (bulkStarts job (e.since start.journal.length))[k]? = some t) :
    (bulkStarts job (e'.since start.journal.length))[k]? = some t := by
  obtain ⟨more, hmore, _⟩ := Course.bulkStarts_grow hbefore hregular hafter job
  rw [hmore, List.getElem?_append_left (List.getElem?_eq_some_iff.mp h).1]
  exact h

end Grow

/-! ### The turn after a failure -/

/-- A turn in which a bulk call has failed in a way that calls for another attempt, with retries left. -/
structure WantsRetry (e : Engine P R) (j : Job P R) (run : BulkRun R) : Prop where
  member : j ∈ e.jobs
  ready : j.isReady e = true
  calling : j.stage = .calling run
  failed : ∃ failure, e.bulkFailure? j.assignment.orders run = some failure ∧
    e.desk.fallback.retry.triggers failure = true
  left : run.attempt ≤ e.desk.fallback.retry.maxRetries

section Turn

variable {start e : Engine P R} {begin : Nat} {orders : List P} {run : BulkRun R}

/-- With retries left and the circuit closed, only the deadline can stand against another attempt. -/
theorem bulkFailed_retried (job : Nat) (a : Assignment P) {failure : DownstreamFailure}
    (htriggers : e.desk.fallback.retry.triggers failure = true) (hfirst : 1 ≤ run.attempt)
    (hleft : run.attempt ≤ e.desk.fallback.retry.maxRetries)
    (hclosed : (e.breaker.recordFailure e.wall).phase = .closed) :
    e.bulkFailed job a run failure =
      let due := e.now + e.desk.fallback.retry.delay (run.attempt - 1)
      let asked := (e.report job .failure).setBreaker (e.report job .failure).breaker
      if run.deadline ≤ due then asked.fallBack job a run.attempt failure
      else (asked, .backingOff run.attempt run.deadline due) := by
  have hasked : (e.report job .failure).breaker.allow (e.report job .failure).wall =
      .ok (true, (e.report job .failure).breaker) := Breaker.allow_closed hclosed _
  rw [bulkFailed_eq]
  simp only [htriggers, Bool.not_true, Bool.false_eq_true, if_false]
  rw [if_neg (by omega), hasked]

/-- After the turn, the submission waits for the delay, or it makes no more bulk calls. -/
theorem WantsRetry.turn {j : Job P R} (h : WantsRetry e j run)
    (hassignment : j.assignment = .submit orders) (hsome : orders ≠ []) (hfirst : 1 ≤ run.attempt)
    (hclosed : (e.breaker.recordFailure e.wall).phase = .closed) :
    let due := e.now + e.desk.fallback.retry.delay (run.attempt - 1)
    (run.deadline ≤ due → (e.jobTurn j).2.isSending = false) ∧
      (due < run.deadline → (e.jobTurn j).2 = .backingOff run.attempt run.deadline due) := by
  obtain ⟨failure, hfailure, htriggers⟩ := h.failed
  obtain ⟨hdesk, hnow, hbreaker, hwall⟩ := heardBulk_frame e j.number run
  have hleft := h.left
  have hturn : e.jobTurn j =
      (e.heardBulk j.number run).bulkFailed j.number j.assignment run failure := by
    simp only [jobTurn, h.calling]
    exact bulkTurn_failed _ _ hfailure
  rw [← hdesk] at htriggers hleft
  rw [← hbreaker, ← hwall] at hclosed
  rw [hturn, bulkFailed_retried j.number j.assignment htriggers hfirst hleft hclosed, hdesk, hnow]
  constructor
  · intro hlate
    rw [if_pos hlate, hassignment]
    exact fallBack_not_sending _ _ _ _ hsome
  · intro hearly
    rw [if_neg (Nat.not_le_of_lt hearly)]

/-- What is known of the bulk calls of a submission after one that has failed with retries left and the
circuit closed. -/
structure Weighs (start : Engine P R) (orders : List P) (begin : Nat) (e : Engine P R) (j : Job P R)
    (run : BulkRun R) (ended : List (Nat × Nat)) : Prop where
  count : ended.length = run.attempt
  last : (ended.map (·.2)).getLast? = some e.now
  punctual : Punctual start (e.serveJob j) j.number orders begin ended none (e.jobTurn j).2
  /-- The calls have used up their time, and there is no other one. -/
  refused : start.desk.fallback.timeForCalls run.attempt ≤ spent ended →
    (e.jobTurn j).2.isSending = false
  /-- They have not, and the next one is due after the delay. -/
  retried : spent ended < start.desk.fallback.timeForCalls run.attempt →
    (e.jobTurn j).2 = .backingOff run.attempt run.deadline
      (e.now + start.desk.fallback.retry.delay (run.attempt - 1))

/-- **A failed call leads to another one exactly if the calls have left time for it.** -/
theorem WantsRetry.weighs {j : Job P R} (h : WantsRetry e j run)
    (htimely : Timely start j.number orders begin e) (hsome : orders ≠ [])
    (hclosed : (e.breaker.recordFailure e.wall).phase = .closed) :
    ∃ ended, Weighs start orders begin e j run ended := by
  obtain ⟨hassignment, calls, opened, hpunctual⟩ := htimely.punctual j h.member rfl
  obtain ⟨failure, hfailure, _⟩ := h.failed
  have hready := h.ready
  have hcalling := h.calling
  obtain ⟨number, a, stage, turn⟩ := j
  obtain rfl : a = .submit orders := hassignment
  obtain rfl : stage = .calling run := hcalling
  have hforward := (hpunctual.onTime.call_limits hready).1
  have hserved := hpunctual.failed hready htimely.desk hfailure
  have hnext := FallbackConfig.nextCall_after hforward
  cases hpunctual.onTime with
  | calling attempt deadline call cutoff within timely =>
    have hcount : (calls ++ [(start.desk.fallback.nextCall begin calls, e.now)]).length =
        run.attempt := by
      rw [attempt, List.length_append, List.length_singleton]
    obtain ⟨hlate, hearly⟩ := h.turn rfl hsome (attempt ▸ Nat.le_add_left 1 _) hclosed
    have hleft := h.left
    rw [htimely.desk] at hlate hearly hleft
    have hweigh := FallbackConfig.nextCall_lt_iff begin (hcount ▸ hleft)
    rw [hcount, hnext, ← deadline, show calls.length = run.attempt - 1 by omega] at hweigh
    refine ⟨_, hcount, ?_, hserved.aside (.nothing rfl) rfl, ?_, ?_⟩
    · rw [List.map_append, List.map_cons, List.map_nil, List.getLast?_concat]
    · exact fun hused => hlate (Nat.le_of_not_lt fun hlt => Nat.not_lt.mpr hused (hweigh.mp hlt))
    · exact fun hspare => hearly (hweigh.mpr hspare)

end Turn

/-! ### Until the retry -/

section Later

variable {start e done : Engine P R} {job begin : Nat} {orders : List P}

/-- The turn in which the next call is made. -/
theorem Punctual.recalled {j : Job P R} {calls : List (Nat × Nat)} {opened : Option Nat}
    (h : Punctual start e j.number orders begin calls opened j.stage)
    (hassignment : j.assignment = .submit orders) (hready : j.isReady e = true)
    {attempt deadline due : Nat} (hstage : j.stage = .backingOff attempt deadline due)
    (hroom : attempt < maxAttempts) :
    (bulkStarts j.number ((e.serveJob j).since start.journal.length))[attempt]? = some due := by
  obtain ⟨number, a, stage, turn⟩ := j
  obtain rfl : a = .submit orders := hassignment
  obtain rfl : stage = .backingOff attempt deadline due := hstage
  have hturn : e.jobTurn ⟨number, .submit orders, .backingOff attempt deadline due, turn⟩ =
      e.placeCall number (.submit orders) (attempt + 1) deadline := by
    simp only [Engine.jobTurn]
    rw [callBulk_eq, if_neg (by omega)]
  have hclocked := h.clocked
  cases h.onTime with
  | backingOff deadline_eq within timely =>
    have hnow : e.now = start.desk.fallback.nextCall begin calls :=
      Nat.le_antisymm timely (of_decide_eq_true hready)
    have hjournal : (e.serveJob ⟨number, .submit orders, .backingOff calls.length deadline
        (start.desk.fallback.nextCall begin calls), turn⟩).journal =
          ⟨e.now, .bulkCalled number orders⟩ :: e.journal := by
      simp only [serveJob, hturn]
      rfl
    have hlength : (calls.map (·.1)).length = calls.length := List.length_map _
    rw [(hclocked.called hjournal).since.1, Option.toList_none, List.append_nil, hnow, ← hlength,
      List.getElem?_concat_length]

/-- **A retry that has been put off is made when it is due.** -/
theorem Course.put_off (hbefore : Course start e) (hregular : start.Regular)
    (htimely : Timely start job orders begin e) {j : Job P R} (hj : j ∈ e.jobs)
    (hnumber : j.number = job) {attempt deadline due : Nat}
    (hstage : j.stage = .backingOff attempt deadline due) (hroom : attempt < maxAttempts)
    (hafter : Course e done) : ∀ k ∈ done.jobs, k.number = job →
      k.stage = .backingOff attempt deadline due ∨
        (bulkStarts job (done.since start.journal.length))[attempt]? = some due := by
  induction hafter with
  | refl =>
    intro k hk hsame
    obtain rfl : k = j :=
      htimely.regular.reached.wellFormed.job_unique hk hj (hsame.trans hnumber.symm)
    exact .inl hstage
  | @tail e₁ e₂ hmid hmove ih =>
    have htimely₁ : Timely start job orders begin e₁ := Course.keeps Move.timely hmid htimely
    have hmade (h : (bulkStarts job (e₁.since start.journal.length))[attempt]? = some due) :
        (bulkStarts job (e₂.since start.journal.length))[attempt]? = some due :=
      Course.getElem?_bulkStarts (hbefore.trans hmid) hregular (.single hmove) h
    intro k hk hsame
    cases hmove.happens htimely₁.regular.reached.wellFormed htimely₁.regular.suited hk with
    | elsewhere same _ => exact (ih k same hsame).imp id hmade
    | worker same _ _ _ _ => exact (ih k same hsame).imp id hmade
    | @turn i member ready moved next =>
      subst moved next
      obtain ⟨hassignment, calls, opened, hpunctual⟩ := htimely₁.punctual i member hsame
      obtain rfl : i.number = job := hsame
      rcases ih i member rfl with hwaits | hcalled
      · exact .inr (hpunctual.recalled hassignment ready hwaits hroom)
      · exact .inr (hmade hcalled)

theorem Timely.length_bulkStarts_le (h : Timely start job orders begin e) {j : Job P R}
    (hj : j ∈ e.jobs) (hnumber : j.number = job) :
    (bulkStarts job (e.since start.journal.length)).length ≤ maxAttempts := by
  obtain ⟨_, calls, opened, hpunctual⟩ := h.punctual j hj hnumber
  rw [hpunctual.clocked.since.1, List.length_append, List.length_map]
  exact hpunctual.counted

/-- A submission that makes no more bulk calls has no other starts from then on. -/
theorem Course.bulkStarts_past (hbefore : Course start e) (hout : start.Outset) {j : Job P R}
    (hj : j ∈ e.jobs) (hassignment : j.assignment = .submit orders) (hsome : orders ≠ [])
    (hlast : j.stage.isSending = false) (hafter : Course e done) {k : Job P R} (hk : k ∈ done.jobs)
    (hnumber : k.number = j.number) :
    bulkStarts j.number (done.since start.journal.length) =
      bulkStarts j.number (e.since start.journal.length) := by
  obtain ⟨more, hmore, hcount⟩ := Course.bulkStarts_grow hbefore hout.regular hafter j.number
  have hsame := (Course.past hbefore hout hj hassignment hsome hlast hafter k hk hnumber).2.1
  have hnone : more = [] := List.eq_nil_of_length_eq_zero (by omega)
  rw [hmore, hnone, List.append_nil]

/-- **What a failed call leads to in the end.** -/
theorem Weighs.settled {j : Job P R} {run : BulkRun R} {ended : List (Nat × Nat)}
    (h : Weighs start orders begin e j run ended) (hbefore : Course start e) (hout : start.Outset)
    (htimely : Timely start j.number orders begin e) (hsome : orders ≠ []) (hj : j ∈ e.jobs)
    (hready : j.isReady e = true) (hafter : Course (e.serveJob j) done) (hsettled : done.Settled) :
    let starts := bulkStarts j.number (done.since start.journal.length)
    (run.attempt < starts.length ↔
      spent ended < start.desk.fallback.timeForCalls run.attempt ∧ run.attempt < maxAttempts) ∧
    ∀ t, starts[run.attempt]? = some t →
      t = e.now + start.desk.fallback.retry.delay (run.attempt - 1) := by
  intro starts
  have hwf := htimely.regular.reached.wellFormed
  have hmove : Move e (e.serveJob j) := .job hj hready
  have hbefore' : Course start (e.serveJob j) := hbefore.tail hmove
  have htimely' := hmove.timely htimely
  have hself := self_mem_serveJob hwf hj hready
  have hassignment : j.assignment = .submit orders := (htimely.punctual j hj rfl).1
  obtain ⟨k, hk, hnumber, hsame⟩ := Course.exists_job hafter htimely'.regular.reached.wellFormed hself
  have hdone := Course.keeps Move.timely hafter htimely'
  have hlength : starts.length ≤ maxAttempts := hdone.length_bulkStarts_le hk hnumber
  by_cases hspare : spent ended < start.desk.fallback.timeForCalls run.attempt ∧
      run.attempt < maxAttempts
  · -- the next call is put off, and when everybody has ended it has been made
    obtain ⟨time, ending, hfinished⟩ := hsettled.finished hdone.regular.reached.wellFormed hk
      (by rw [hsame]; exact (congrArg _ hassignment).trans rfl)
    have hmade : starts[run.attempt]? =
        some (e.now + start.desk.fallback.retry.delay (run.attempt - 1)) := by
      rcases Course.put_off hbefore' hout.regular htimely' hself rfl (h.retried hspare.1) hspare.2
        hafter k hk hnumber with hwaits | hcalled
      · rw [hfinished] at hwaits
        cases hwaits
      · exact hcalled
    refine ⟨iff_of_true (List.getElem?_eq_some_iff.mp hmade).1 hspare, ?_⟩
    intro t ht
    exact Option.some.inj (ht.symm.trans hmade)
  · have hnone : starts.length ≤ run.attempt := by
      rcases Nat.lt_or_ge run.attempt maxAttempts with hroom | hfull
      · have hused : start.desk.fallback.timeForCalls run.attempt ≤ spent ended :=
          Nat.le_of_not_lt fun hlt => hspare ⟨hlt, hroom⟩
        have hpast : starts = bulkStarts j.number ((e.serveJob j).since start.journal.length) :=
          Course.bulkStarts_past (j := { j with stage := (e.jobTurn j).2 }) hbefore' hout hself
            hassignment hsome (h.refused hused) hafter hk hnumber
        rw [hpast, h.punctual.clocked.since.1, Option.toList_none, List.append_nil, List.length_map,
          h.count]
      · exact Nat.le_trans hlength hfull
    refine ⟨iff_of_false (Nat.not_lt_of_le hnone) hspare, ?_⟩
    intro t ht
    exact absurd (List.getElem?_eq_some_iff.mp ht).1 (Nat.not_lt_of_le hnone)

end Later

/-! ### A service that fails at once -/

/-- On the way to an engine, whenever a bulk call of the job has failed and retries are left, the circuit is
closed with this failure on its count. -/
def StaysClosed (start done : Engine P R) (job : Nat) : Prop :=
  ∀ e j run, Course start e → WantsRetry e j run → j.number = job → Course (e.serveJob j) done →
    (e.breaker.recordFailure e.wall).phase = .closed

/-- The job has made as many bulk calls as there are attempts that can be counted. -/
def AllMade (start : Engine P R) (orders : List P) (begin : Nat) (e : Engine P R) (job : Nat) : Prop :=
  ∃ ended, start.desk.Scheduled orders begin ended ∧
    ended.length = min (1 + start.desk.fallback.retry.maxRetries) maxAttempts ∧
    bulkStarts job (e.since start.journal.length) = ended.map (·.1)

section AtOnce

variable {start e done : Engine P R} {begin : Nat} {orders : List P}

/-- A bulk call that fails at once has failed when its turn comes. -/
theorem failed_of_failsAtOnce {job : Nat} {calls : List (Nat × Nat)} {opened : Option Nat} {j : Job P R}
    {run : BulkRun R} (h : Punctual start e job orders begin calls opened j.stage)
    (hready : j.isReady e = true) (hstage : j.stage = .calling run)
    (hassignment : j.assignment = .submit orders) (hfails : start.desk.FailsAtOnce orders) :
    ∃ failure, e.bulkFailure? j.assignment.orders run = some failure ∧
      start.desk.fallback.retry.triggers failure = true := by
  obtain ⟨number, a, stage, turn⟩ := j
  obtain rfl : stage = .calling run := hstage
  obtain rfl : a = .submit orders := hassignment
  have hforward := (h.onTime.call_limits hready).1
  cases h.onTime with
  | @calling _ n attempt deadline call cutoff within timely =>
    obtain ⟨failure, hbulk, htriggers⟩ := hfails n
    have hreply : run.call.reply? e.now = some (some (.error failure)) := by
      rw [call, hbulk]
      exact if_pos hforward
    refine ⟨failure, ?_, htriggers⟩
    rw [bulkFailure?, hreply]

variable {j : Job P R} {n : Nat}

theorem jobTurn_submits (harriving : j.stage.isArriving = true)
    (hassignment : j.assignment = .submit orders) (hsome : orders ≠ []) :
    e.jobTurn j = e.startSubmission j.number (.submit orders) := by
  rw [jobTurn_of_arriving e harriving, hassignment]
  simp only [startJob, List.isEmpty_eq_false_iff.mpr hsome, Bool.false_eq_true, if_false]

theorem sending_after_first_turn (h : start.desk.Exhausts orders begin) (hsome : orders ≠ [])
    (htimely : Timely start j.number orders begin e) (hj : j ∈ e.jobs) (hready : j.isReady e = true)
    {due : Nat} (hstage : j.stage = .arriving due) : (e.jobTurn j).2.isSending = true := by
  obtain ⟨hassignment, calls, opened, hpunctual⟩ := htimely.punctual j hj rfl
  obtain ⟨budget, hbudget, hclock⟩ := h.fits
  have hused := h.used
  rw [← htimely.desk] at hbudget hused
  have hnow : e.now = begin := by
    obtain ⟨number, a, stage, turn⟩ := j
    obtain rfl : stage = .arriving due := hstage
    cases hpunctual.onTime with
    | arriving fresh timely => exact Nat.le_antisymm timely (of_decide_eq_true hready)
  rw [jobTurn_submits (by rw [hstage]; rfl) hassignment hsome,
    startSubmission_bulk j.number _ hused hbudget (hnow ▸ hclock)]
  rfl

/-- A call that fails at once is the last one only if no retry is left. -/
theorem allMade_of_last_call (h : start.desk.Exhausts orders begin) (hsome : orders ≠ [])
    (htimely : Timely start j.number orders begin e) (hj : j ∈ e.jobs) (hready : j.isReady e = true)
    (hpassage : Passage start.desk.fallback e j.number n j.stage) {run : BulkRun R}
    (hstage : j.stage = .calling run)
    (hclosed : WantsRetry e j run → (e.breaker.recordFailure e.wall).phase = .closed)
    (hlast : (e.jobTurn j).2.isSending = false) :
    AllMade start orders begin (e.serveJob j) j.number := by
  obtain ⟨hassignment, calls, opened, hpunctual⟩ := htimely.punctual j hj rfl
  obtain ⟨failure, hfailure, htriggers⟩ := failed_of_failsAtOnce hpunctual hready hstage hassignment h.fails
  have hexhausted : start.desk.fallback.retry.maxRetries < run.attempt := by
    by_contra hleft
    have hwants : WantsRetry e j run := by
      refine ⟨hj, hready, hstage, ⟨failure, hfailure, ?_⟩, ?_⟩
      · rw [htimely.desk]
        exact htriggers
      · rw [htimely.desk]
        exact Nat.le_of_not_lt hleft
    obtain ⟨ended, hweighs⟩ := hwants.weighs htimely hsome (hclosed hwants)
    have hspare : spent ended < start.desk.fallback.timeForCalls run.attempt := by
      rw [h.fails.spent_eq_zero hweighs.punctual.scheduled]
      exact Nat.lt_of_lt_of_le h.time (FallbackConfig.callTimeout_le_timeForCalls _ _)
    rw [hweighs.retried hspare] at hlast
    cases hlast
  obtain ⟨number, a, stage, turn⟩ := j
  obtain rfl : a = .submit orders := hassignment
  obtain rfl : stage = .calling run := hstage
  have hserved := hpunctual.failed hready htimely.desk hfailure
  refine ⟨_, hserved.scheduled, ?_, ?_⟩
  · have hcounted := hserved.counted
    rw [Option.toList_none, List.length_nil, Nat.add_zero] at hcounted
    have hattempt : run.attempt = (calls ++ [(start.desk.fallback.nextCall begin calls,
        e.now)]).length := by
      cases hpunctual.onTime with
      | calling attempt => rw [attempt, List.length_append, List.length_singleton]
    cases hpassage with
    | calling used count first bound unsent => omega
  · have hclocked : Clocked start (e.serveJob ⟨number, .submit orders, .calling run, turn⟩) number
        _ _ := hserved.clocked.aside (.nothing rfl)
    rw [hclocked.since.1, Option.toList_none, List.append_nil]

/-- A retry that is due and not made is beyond the largest count. -/
theorem Timely.allMade_of_last_retry (htimely : Timely start j.number orders begin e) (hj : j ∈ e.jobs)
    (hpassage : Passage start.desk.fallback e j.number n j.stage) {attempt deadline due : Nat}
    (hstage : j.stage = .backingOff attempt deadline due)
    (hlast : (e.jobTurn j).2.isSending = false) :
    AllMade start orders begin (e.serveJob j) j.number := by
  obtain ⟨hassignment, calls, opened, hpunctual⟩ := htimely.punctual j hj rfl
  obtain ⟨number, a, stage, turn⟩ := j
  obtain rfl : a = .submit orders := hassignment
  obtain rfl : stage = .backingOff attempt deadline due := hstage
  have hturn : e.jobTurn ⟨number, .submit orders, .backingOff attempt deadline due, turn⟩ =
      e.callBulk number (.submit orders) (attempt + 1) deadline := rfl
  have hfull : maxAttempts < attempt + 1 := by
    by_contra hroom
    rw [hturn, callBulk_eq, if_neg hroom] at hlast
    cases hlast
  rw [callBulk_eq, if_pos hfull, conclude_eq] at hturn
  have hclocked : Clocked start (e.serveJob ⟨number, .submit orders, .backingOff attempt deadline due,
      turn⟩) number (calls.map (·.1) ++ opened.toList) (calls.map (·.2)) := by
    refine hpunctual.clocked.aside (.nothing ?_)
    simp only [serveJob, hturn]
  have hcounted := hpunctual.counted
  cases hpunctual.onTime with
  | backingOff deadline_eq within timely =>
    cases hpassage with
    | backingOff used bound unsent =>
      refine ⟨calls, hpunctual.scheduled, by omega, ?_⟩
      rw [hclocked.since.1, Option.toList_none, List.append_nil]

/-- **Where all calls fail at once, as many are made as there are attempts, each when the delays before it
are over.** -/
theorem starts_of_exhausts (h : start.desk.Exhausts orders begin) (hsome : orders ≠ [])
    (hout : start.Outset) {job : Nat} (htimely : Timely start job orders begin start)
    (hcourse : Course start done) (hsettled : done.Settled) (hstays : StaysClosed start done job)
    {k : Job P R} (hk : k ∈ done.jobs) (hnumber : k.number = job) :
    bulkStarts job (done.since start.journal.length) =
      (List.range (min (1 + start.desk.fallback.retry.maxRetries) maxAttempts)).map fun x =>
        begin + ∑ l ∈ Finset.range x, start.desk.fallback.retry.delay l := by
  have hdone : Timely start job orders begin done := Course.keeps Move.timely hcourse htimely
  have hassigned : k.assignment = .submit orders := (hdone.punctual k hk hnumber).1
  obtain ⟨time, ending, hfinished⟩ := hsettled.finished hdone.regular.reached.wellFormed hk
    (by rw [hassigned]; rfl)
  obtain hsending | ⟨e, j, hbefore, hj, hsame, hready, ⟨hsending, hlast⟩, hafter⟩ :=
    Course.decided hcourse hout k hk
  · rw [hfinished] at hsending
    cases hsending
  · obtain rfl : j.number = job := hsame.trans hnumber
    have hreached : Timely start j.number orders begin e := Course.keeps Move.timely hbefore htimely
    have hassignment := (hreached.punctual j hj rfl).1
    obtain ⟨n, _, hpassage⟩ := Course.passages hbefore hout.regular hout.passages j hj orders
      hassignment hsome
    have hended : AllMade start orders begin (e.serveJob j) j.number := by
      cases hstage : j.stage with
      | arriving due =>
        rw [sending_after_first_turn h hsome hreached hj hready hstage] at hlast
        cases hlast
      | calling run =>
        exact allMade_of_last_call h hsome hreached hj hready hpassage hstage
          (fun hwants => hstays e j run hbefore hwants rfl hafter) hlast
      | backingOff attempt deadline due => exact hreached.allMade_of_last_retry hj hpassage hstage hlast
      | _ =>
        rw [hstage] at hsending
        cases hsending
    obtain ⟨ended, hscheduled, hlength, hstarts⟩ := hended
    have hself := self_mem_serveJob hreached.regular.reached.wellFormed hj hready
    rw [Course.bulkStarts_past (j := { j with stage := (e.jobTurn j).2 })
      (hbefore.tail (.job hj hready)) hout hself hassignment hsome hlast hafter hk hnumber, hstarts,
      h.fails.starts_eq hscheduled, hlength]

/-- If nobody else sends and the failures of all attempts but the last do not reach the threshold, the
circuit stays closed. -/
theorem staysClosed_of_few {job : Nat} (htimely : Timely start job orders begin start)
    (hsole : start.SoleSender job) (hclosed : start.breaker.phase = .closed)
    (hfew : start.breaker.failures.toNat + start.desk.fallback.retry.maxRetries <
      start.breaker.config.failureThreshold) (done : Engine P R) : StaysClosed start done job := by
  rintro e j run hbefore hwants rfl hafter
  have hreached : Timely start j.number orders begin e := Course.keeps Move.timely hbefore htimely
  obtain ⟨hassignment, calls, opened, hpunctual⟩ := hreached.punctual j hwants.member rfl
  obtain ⟨⟨added, hjournal, htold, _⟩, hheard⟩ := Course.sending_tells hbefore htimely.regular
    hwants.member hassignment (by rw [hwants.calling]; rfl)
  obtain ⟨added', hjournal', hhears⟩ := hheard hsole
  obtain rfl : added' = added := List.append_cancel_right (hjournal'.symm.trans hjournal)
  have hcount := length_bulkReportsIn_le start.desk.fallback.retry orders.length j.number
    added'.reverse
  rw [← htold, ← map_callsIn, List.length_map, ← since_eq hjournal, hpunctual.clocked.since.2,
    List.length_map] at hcount
  have hattempt : run.attempt = calls.length + 1 := by
    have honTime := hpunctual.onTime
    rw [hwants.calling] at honTime
    cases honTime with
    | calling attempt => exact attempt
  have hleft := hwants.left
  rw [hreached.desk] at hleft
  rw [since_eq hjournal] at hcount
  obtain ⟨hphase, hfailures⟩ := hhears.few hclosed (by omega)
  exact (Breaker.record_few hphase (by rw [hhears.config]; omega) e.wall .failure).1

end AtOnce

/-! ### Every submission -/

/-- **A retry is refused for want of time only when the calls have used it up.** Let a submission be one of
several assignments, and let a bulk call of it, the last of so many, have failed in a way that calls for
another attempt, with retries left and the circuit closed. When everybody has ended, the submission has made
another call if and only if the time spent in the calls so far was less than that of one call and the delays
of all later retries (and the attempts can still be counted), and the call began one delay after the
failure. In particular, calls that together took less time than one call may are no reason to refuse. If
all calls fail at once and the circuit stays closed, as many calls are made as there are attempts, each when
the delays before it are over. What is performed comes to such an end. -/
theorem retried_iff_calls_left_time {e : Engine P R} (hrest : e.AtRest)
    {assignments : List (Nat × Assignment P)} {i wait : Nat} {orders : List P}
    (hassigned : assignments[i]? = some (wait, .submit orders)) :
    let c := e.desk.fallback
    let start := (e.addJobs assignments).unturned
    let starts (e' : Engine P R) := bulkStarts (e.nextNumber + i) (e'.since e.journal.length)
    let ends (e' : Engine P R) := bulkEnds (e.nextNumber + i) (e'.since e.journal.length)
    (∀ e' j run, Course start e' → j.number = e.nextNumber + i → WantsRetry e' j run →
      (e'.breaker.recordFailure e'.wall).phase = .closed →
      let after := e'.serveJob j
      let used := spent ((starts after).zip (ends after))
      (starts after).length = run.attempt ∧ (ends after).length = run.attempt ∧
      (ends after).getLast? = some e'.now ∧
      (∃ done, Course after done ∧ done.Settled) ∧
      ∀ done, Course after done → done.Settled →
        (run.attempt < (starts done).length ↔
          used < c.callTimeout + ∑ k ∈ Finset.Ico run.attempt c.retry.maxRetries, c.retry.delay k ∧
            run.attempt < maxAttempts) ∧
        (used < c.callTimeout → run.attempt < maxAttempts → run.attempt < (starts done).length) ∧
        ∀ t, (starts done)[run.attempt]? = some t →
          t = e'.now + c.retry.delay (run.attempt - 1)) ∧
    (orders ≠ [] → e.desk.Exhausts orders (e.now + wait) →
      ∀ done, Course start done → done.Settled → StaysClosed start done (e.nextNumber + i) →
        starts done = (List.range (min (1 + c.retry.maxRetries) maxAttempts)).map fun k =>
          e.now + wait + ∑ l ∈ Finset.range k, c.retry.delay l) ∧
    ∃ done, Course start done ∧ done.Settled ∧ (e.perform assignments).1.journal = done.journal := by
  intro c start starts ends
  have hout := hrest.outset assignments
  have htimely := hrest.timely hassigned
  obtain ⟨hdesk, hjournal⟩ : start.desk = e.desk ∧ start.journal = e.journal := by
    simp only [start, addJobs_eq]
    exact ⟨rfl, rfl⟩
  refine ⟨?_, ?_, ?_⟩
  · intro e' j run hbefore hnumber hwants hclosed after used
    have hreached : Timely start (e.nextNumber + i) orders (e.now + wait) e' :=
      Course.keeps Move.timely hbefore htimely
    rw [← hnumber] at hreached
    have hassignment := (hreached.punctual j hwants.member rfl).1
    have hsome : orders ≠ [] := by
      have hearnest := Course.earnest hbefore hout.regular (hrest.earnest assignments) j hwants.member
        (by rw [hwants.calling]; rfl)
      rwa [hassignment] at hearnest
    obtain ⟨ended, hweighs⟩ := hwants.weighs hreached hsome hclosed
    obtain ⟨hstarts, hends⟩ := hweighs.punctual.clocked.since
    rw [Option.toList_none, List.append_nil] at hstarts
    have hstarts' : starts after = ended.map (·.1) := by
      rw [← hstarts, hnumber, hjournal]
    have hends' : ends after = ended.map (·.2) := by
      rw [← hends, hnumber, hjournal]
    have hused : used = spent ended :=
      congrArg spent (List.zip_of_prod hstarts'.symm hends'.symm).symm
    have hserved := (Move.job hwants.member hwants.ready).regular hreached.regular
    refine ⟨?_, ?_, ?_, exists_settled hserved.reached.wellFormed, ?_⟩
    · rw [hstarts', List.length_map, hweighs.count]
    · rw [hends', List.length_map, hweighs.count]
    · rw [hends', hweighs.last]
    · intro done hafter hsettled
      have hlater := hweighs.settled hbefore hout hreached hsome hwants.member hwants.ready hafter
        hsettled
      rw [hnumber, hjournal, hdesk, ← hused] at hlater
      obtain ⟨hiff, hdue⟩ := hlater
      refine ⟨hiff, ?_, hdue⟩
      intro hshort hroom
      have hspare := Nat.lt_of_lt_of_le hshort (c.callTimeout_le_timeForCalls run.attempt)
      exact hiff.mpr ⟨hspare, hroom⟩
  · intro hsome hexhausts done hcourse hsettled hstays
    obtain ⟨k, hk, hnumber, _⟩ := hrest.exists_job hcourse hassigned
    rw [← hdesk] at hexhausts
    have hall := starts_of_exhausts hexhausts hsome hout htimely hcourse hsettled hstays
      (List.mem_of_getElem? hk) hnumber
    rwa [hjournal, hdesk] at hall
  · obtain ⟨done, hcourse, hsettled, _, hdone, _⟩ := perform_course hrest assignments
    exact ⟨done, hcourse, hsettled, congrArg (·.journal) hdone⟩

/-- Every bulk call is reset at once. After the first one, with two retries left, the next one is made ten
milliseconds later, and the last one twenty milliseconds after that. -/
theorem three_calls_reset_at_once :
    let order := Order.limit 1 0 "C-1" "ACME" .buy (.ofNat 1) (.ofNat 10)
    let failure : DownstreamFailure := { status := none, kind := .connectivity, message := "reset" }
    let service : Service :=
      { bulk := fun _ _ => .answers 0 (.error failure), single := fun _ _ => .hangs }
    let c : AppConfig :=
      { fallback :=
          { enabled := false, callTimeout := 7
            retry := { maxRetries := 2, baseDelay := 10, multiplier := 2.0 } } }
    let e := begun (.forOrders c service (.table 0)) c.breaker c.overload none (Table.ofIds []) 0
    let start := (e.addJobs [(0, .submit [order])]).unturned
    let first : Job Order Acknowledgement := newJob 0 0 (.submit [order])
    let called := start.serveJob first
    let result := e.perform [(0, .submit [order])]
    e.AtRest ∧ e.desk.Exhausts [order] 0 ∧ Course start called ∧
      (∃ j run, j.number = 0 ∧ WantsRetry called j run ∧
        (called.breaker.recordFailure called.wall).phase = .closed ∧
        ∀ done, Course (called.serveJob j) done → done.Settled →
          (bulkStarts 0 (done.since 0))[1]? = some 10) ∧
      bulkStarts 0 (result.1.since 0) = [0, 10, 30] := by
  intro order failure service c e start first called result
  have hrest : e.AtRest := begun_atRest _ _ _ _ _ _
  have hassigned : [(0, Assignment.submit [order])][0]? = some (0, .submit [order]) := rfl
  have hsole : start.SoleSender 0 :=
    hrest.soleSender (.submit [order]) fun _ hnone => absurd hnone List.not_mem_nil
  have hbudget : c.fallback.retry.totalBudget c.fallback.callTimeout = .ok 37 := by decide +kernel
  have hexhausts : e.desk.Exhausts [order] 0 :=
    ⟨rfl, ⟨37, hbudget, by decide⟩, by decide, fun _ => ⟨failure, rfl, rfl⟩⟩
  obtain ⟨hmem, hready, _⟩ := perform_first hrest (.submit [order]) []
  have hcourse : Course start called := .single (.job hmem hready)
  obtain ⟨hretried, hall, done, hdone, hsettled, hjournal⟩ :=
    retried_iff_calls_left_time hrest hassigned
  refine ⟨hrest, hexhausts, hcourse, ?_, ?_⟩
  · -- after the first turn, the bulk call has been made, and its answer is there
    let run : BulkRun Acknowledgement :=
      { attempt := 1, deadline := 37, call := .answers 0 (.error failure), cutoff := 7 }
    let j : Job Order Acknowledgement := { first with stage := (start.jobTurn first).2 }
    have hself : j ∈ called.jobs :=
      self_mem_serveJob (hrest.wellFormed [(0, .submit [order])]) hmem hready
    have hturn : start.jobTurn first = start.startSubmission 0 (.submit [order]) :=
      jobTurn_submits rfl rfl (List.cons_ne_nil _ _)
    have hcalling : j.stage = .calling run := by
      simp only [j]
      rw [hturn, startSubmission_bulk 0 _ rfl hbudget (by decide)]
      rfl
    have hwants : WantsRetry called j run :=
      ⟨hself, by decide +kernel, hcalling, ⟨failure, rfl, rfl⟩, by decide +kernel⟩
    have hclosed : (called.breaker.recordFailure called.wall).phase = .closed := by decide +kernel
    have hused : spent ((bulkStarts 0 ((called.serveJob j).since 0)).zip
        (bulkEnds 0 ((called.serveJob j).since 0))) < 7 := by decide +kernel
    have hdelay : called.now + c.fallback.retry.delay 0 = 10 := by decide +kernel
    refine ⟨j, run, rfl, hwants, hclosed, ?_⟩
    intro done hafter hsettled
    obtain ⟨_, _, _, _, hlater⟩ := hretried called j run hcourse rfl hwants hclosed
    obtain ⟨_, hmade, hdue⟩ := hlater done hafter hsettled
    have hsecond := List.getElem?_eq_getElem (hmade hused (by decide))
    exact hsecond.trans (congrArg some ((hdue _ hsecond).trans hdelay))
  · have htimely := hrest.timely hassigned
    have hstays : StaysClosed start done 0 :=
      staysClosed_of_few htimely hsole rfl (by decide) done
    have hstarts := hall (List.cons_ne_nil _ _) hexhausts done hdone hsettled hstays
    have hsame : result.1.since 0 = done.since 0 := by
      simp only [since]
      rw [hjournal]
    rw [hsame]
    refine hstarts.trans ?_
    decide +kernel

/-- The delays of six hundred retries last longer than the clock goes. Then the submission breaks off before
its first call, though a call would have time, every call would fail at once, and the circuit would stay
closed. -/
theorem no_call_when_delays_outlast_clock :
    let order := Order.limit 1 0 "C-1" "ACME" .buy (.ofNat 1) (.ofNat 10)
    let failure : DownstreamFailure := { status := none, kind := .connectivity, message := "reset" }
    let service : Service :=
      { bulk := fun _ _ => .answers 0 (.error failure), single := fun _ _ => .hangs }
    let c : AppConfig :=
      { breaker := { failureThreshold := 1000 }
        fallback := { retry := { maxRetries := 600, baseDelay := maxWord, multiplier := 1.0 } } }
    let e := begun (.forOrders c service (.table 0)) c.breaker c.overload none (Table.ofIds []) 0
    let start := (e.addJobs [(0, .submit [order])]).unturned
    let result := e.perform [(0, .submit [order])]
    e.AtRest ∧ c.fallback.bulkEnabled = true ∧ 0 < c.fallback.callTimeout ∧
      e.desk.FailsAtOnce [order] ∧ (∀ done, StaysClosed start done 0) ∧
      bulkStarts 0 (result.1.since 0) = [] ∧
      (bulkStarts 0 (result.1.since 0)).length ≠ 1 + c.fallback.retry.maxRetries := by
  intro order failure service c e start result
  have hrest : e.AtRest := begun_atRest _ _ _ _ _ _
  have hassigned : [(0, Assignment.submit [order])][0]? = some (0, .submit [order]) := rfl
  have hsole : start.SoleSender 0 :=
    hrest.soleSender (.submit [order]) fun _ hnone => absurd hnone List.not_mem_nil
  have hbudget := RetryConfig.totalBudget_steady (c := start.desk.fallback.retry) rfl
    start.desk.fallback.callTimeout (by decide +kernel)
  have hbegins : start.jobTurn (newJob e.nextNumber e.now (.submit [order])) =
      start.startSubmission e.nextNumber (.submit [order]) :=
    jobTurn_submits rfl rfl (List.cons_ne_nil _ _)
  have hturn := hbegins.trans
    (startSubmission_overflow (e := start) _ (.submit [order]) rfl hbudget (by decide +kernel))
  have hnothing : result.1.journal = [] :=
    hrest.perform_nothing (hturn.trans (conclude_eq _ _ _)) rfl
  have hnone : bulkStarts 0 (result.1.since 0) = [] := by
    simp only [since]
    rw [hnothing]
    rfl
  have hstays (done : Engine Order Acknowledgement) : StaysClosed start done 0 :=
    staysClosed_of_few (hrest.timely hassigned) hsole rfl (by decide) done
  refine ⟨hrest, rfl, by decide, fun _ => ⟨failure, rfl, rfl⟩, hstays, hnone, ?_⟩
  rw [hnone]
  decide

end Engine

end OrderAdmission
