import OrderAdmission.Proofs.Backoff

/-!
# Time budgets that are too long

Before its first bulk call a submission adds up all the delays that its retries may have. Each delay is
clamped to a word of milliseconds, but their sum is not: it has to be a time span, which has room for a word
of whole seconds, and it has to end before the clock does.

The delays are added one by one, and the sum is checked after each of them. Since it only grows, that is
the same as checking the whole of it once (`totalBackoff_checked`), and a time that ends before the
clock does is a time span in any case. **So whether a submission makes its first call hangs on one
comparison** (`startSubmission_eq`): either the call is made at the instant at which the submission begins,
or the submission breaks off there.
-/
namespace OrderAdmission

variable {P R : Type}

/-! ### The sum of the delays -/

namespace RetryConfig

theorem delay_le (c : RetryConfig) (retry : Nat) : c.delay retry ≤ maxWord :=
  Nat.le_sub_one_of_lt (UInt64.toNat_lt_size _)

theorem waits_le (c : RetryConfig) (retries : Nat) : c.waits retries ≤ retries * maxWord := by
  induction retries with
  | zero => exact Nat.zero_le _
  | succ retries ih =>
    rw [waits_succ, Nat.succ_mul]
    exact Nat.add_le_add ih (c.delay_le retries)

theorem checkedSpan_bind {sum more : Nat} {f : Nat → Except Crash Nat}
    (h : sum / 1000 ≤ maxWord → f sum = checkedSpan (sum + more)) :
    (checkedSpan sum >>= f) = checkedSpan (sum + more) := by
  by_cases hfits : sum / 1000 ≤ maxWord
  · rw [checkedSpan, if_pos hfits]
    exact h hfits
  · have hgrows : sum / 1000 ≤ (sum + more) / 1000 := Nat.div_le_div_right (Nat.le_add_right _ _)
    rw [checkedSpan, if_neg hfits, checkedSpan, if_neg (by omega)]
    rfl

theorem sumDelays_checked (c : RetryConfig) {k sum : Nat} (hfits : sum / 1000 ≤ maxWord) (count : Nat) :
    c.sumDelays k sum count = checkedSpan (sum + ∑ i ∈ Finset.range count, c.delay (k + i)) := by
  induction count generalizing k sum with
  | zero => rw [Finset.sum_range_zero, Nat.add_zero, checkedSpan, if_pos hfits, sumDelays]
  | succ count ih =>
    have hsum : sum + ∑ i ∈ Finset.range (count + 1), c.delay (k + i) =
        sum + c.delay k + ∑ i ∈ Finset.range count, c.delay (k + 1 + i) := by
      rw [Finset.sum_range_succ']
      simp only [Nat.add_zero, Nat.add_assoc, Nat.add_comm 1, Nat.add_comm (c.delay k)]
    rw [hsum, sumDelays]
    exact checkedSpan_bind ih

theorem totalBackoff_checked (c : RetryConfig) :
    c.totalBackoff = checkedSpan (c.waits c.maxRetries) := by
  rw [totalBackoff, sumDelays_checked c (Nat.zero_le _)]
  simp only [Nat.zero_add, waits]

theorem totalBudget_checked (c : RetryConfig) (callTimeout : Nat) :
    c.totalBudget callTimeout = checkedSpan (callTimeout + c.waits c.maxRetries) := by
  rw [totalBudget, totalBackoff_checked, Nat.add_comm callTimeout]
  exact checkedSpan_bind fun _ => by rw [Nat.add_comm]

theorem checkedSpan_fits {ms : Nat} (h : ms ≤ 1000 * maxWord) : checkedSpan ms = .ok ms :=
  if_pos (Nat.div_le_of_le_mul h)

theorem waits_steady {c : RetryConfig} (hsteady : c.multiplier = 1.0) (retries : Nat) :
    c.waits retries = retries * c.delay 0 := by
  induction retries with
  | zero => rw [waits_zero, Nat.zero_mul]
  | succ retries ih => rw [waits_succ, ih, delay_steady hsteady retries, Nat.succ_mul]

end RetryConfig

theorem checkedSpan_of_lt_clockEnd {begin ms : Nat} (h : begin + ms < clockEnd) :
    RetryConfig.checkedSpan ms = .ok ms := by
  have hclock : clockEnd ≤ 1000 * maxWord := by decide
  exact RetryConfig.checkedSpan_fits (by omega)

/-! ### The first call -/

namespace Engine

/-- **What a submission with bulk calls begins with**: the first call, if the whole budget lies before the
end of the clock, and otherwise nothing. -/
theorem startSubmission_eq {e : Engine P R} (job : Nat) (a : Assignment P)
    (hbulk : e.desk.fallback.bulkEnabled = true) :
    e.startSubmission job a =
      if e.now + e.desk.fallback.timeBudget < clockEnd then
        e.placeCall job a 1 (e.now + e.desk.fallback.timeBudget)
      else e.conclude a (.error .overflow) := by
  have hbudget := e.desk.fallback.retry.totalBudget_checked e.desk.fallback.callTimeout
  change _ = RetryConfig.checkedSpan e.desk.fallback.timeBudget at hbudget
  split
  · next htime =>
    exact startSubmission_bulk job a hbulk (hbudget.trans (checkedSpan_of_lt_clockEnd htime)) htime
  · next hlate =>
    by_cases hfits : e.desk.fallback.timeBudget / 1000 ≤ maxWord
    · rw [RetryConfig.checkedSpan, if_pos hfits] at hbudget
      exact startSubmission_overflow job a hbulk hbudget hlate
    · rw [RetryConfig.checkedSpan, if_neg hfits] at hbudget
      simp only [startSubmission, hbulk, hbudget, Bool.not_true, Bool.false_eq_true, if_false]

/-- The turn in which a job begins to send its orders: it is a submission, or an admission that nothing
stands in the way of. -/
inductive BeginsToSend (orders : List P) (e : Engine P R) (j : Job P R) : Prop where
  | submission (arriving : j.stage.isArriving = true) (some : orders ≠ [])
      (assignment : j.assignment = .submit orders)
  | admission {breaker : Breaker} (arriving : j.stage.isArriving = true) (some : orders ≠ [])
      (assignment : j.assignment = .process orders) (reviewed : e.desk.review orders = .ok ())
      (admitted : e.breaker.admitBulk e.wall = .ok (.ok (), breaker))
      (healthy : (e.admissionCheck breaker).1.overloaded = false)

theorem BeginsToSend.orders {orders : List P} {e : Engine P R} {j : Job P R}
    (h : BeginsToSend orders e j) : j.assignment.orders = orders := by
  cases h with
  | submission _ _ assignment | admission _ _ assignment => rw [assignment]; rfl

/-- Such a turn starts the submission of the orders. -/
theorem BeginsToSend.turn {orders : List P} {e : Engine P R} {j : Job P R}
    (h : BeginsToSend orders e j) :
    ∃ e' : Engine P R, e'.desk = e.desk ∧ e'.now = e.now ∧ e'.journal = e.journal ∧
      e.jobTurn j = e'.startSubmission j.number j.assignment := by
  cases h with
  | submission arriving some assignment =>
    refine ⟨e, rfl, rfl, rfl, ?_⟩
    rw [jobTurn_submits arriving assignment some, assignment]
  | @admission breaker arriving some assignment reviewed admitted healthy =>
    refine ⟨(e.enterRequest.setBreaker breaker).setDetector (e.admissionCheck breaker).2, rfl, rfl, rfl, ?_⟩
    have hprocess : e.jobTurn j = e.startAdmission j.number (.process orders) := by
      rw [jobTurn_of_arriving e arriving, assignment]
      rfl
    have hsome : (Assignment.process orders).orders ≠ [] := some
    rw [hprocess, startAdmission_asked hsome reviewed admitted, checkOverload_healthy healthy,
      assignment]

/-- What the first turn of a submission leads to. -/
structure CallsFirst (orders : List P) (e : Engine P R) (j : Job P R) : Prop where
  stage : ∃ run, (e.jobTurn j).2 = .calling run
  journal : (e.serveJob j).journal = ⟨e.now, .bulkCalled j.number orders⟩ :: e.journal

/-- A turn that breaks its job off before anything has been done. -/
structure BreaksOff (e : Engine P R) (j : Job P R) : Prop where
  stage : (e.jobTurn j).2 = .finished e.now (.error .overflow)
  journal : (e.serveJob j).journal = e.journal

section FirstTurn

variable {orders : List P} {e : Engine P R} {j : Job P R}

theorem BeginsToSend.calls (h : BeginsToSend orders e j)
    (hbulk : e.desk.fallback.bulkEnabled = true)
    (htime : e.now + e.desk.fallback.timeBudget < clockEnd) : CallsFirst orders e j := by
  obtain ⟨e', hdesk, hnow, hjournal, hturn⟩ := h.turn
  rw [← hdesk] at hbulk
  rw [startSubmission_eq _ _ hbulk, hdesk, hnow, if_pos htime] at hturn
  refine ⟨⟨_, congrArg Prod.snd hturn⟩, ?_⟩
  have hplaced : (e.serveJob j).journal = ⟨e'.now, .bulkCalled j.number j.assignment.orders⟩ ::
      e'.journal := congrArg (fun turn => turn.1.journal) hturn
  rw [hplaced, hnow, hjournal, h.orders]

theorem BeginsToSend.breaksOff (h : BeginsToSend orders e j)
    (hbulk : e.desk.fallback.bulkEnabled = true)
    (hlate : ¬ e.now + e.desk.fallback.timeBudget < clockEnd) : BreaksOff e j := by
  obtain ⟨e', hdesk, hnow, hjournal, hturn⟩ := h.turn
  rw [← hdesk] at hbulk
  rw [startSubmission_eq _ _ hbulk, hdesk, hnow, if_neg hlate, conclude_eq] at hturn
  refine ⟨hnow ▸ congrArg Prod.snd hturn, ?_⟩
  have hended : (e.serveJob j).journal = e'.journal := congrArg (fun turn => turn.1.journal) hturn
  rw [hended, hjournal]

end FirstTurn

/-! ### Every submission -/

/-- A submission that has ended began on time, and had not called anybody before. -/
theorem AtRest.began {e done : Engine P R} (hrest : e.AtRest) {assignments : List (Nat × Assignment P)}
    {i wait : Nat} {orders : List P} (hassigned : assignments[i]? = some (wait, .submit orders))
    (hcourse : Course (e.addJobs assignments).unturned done) (hsettled : done.Settled) :
    ∃ e₁ j, Course (e.addJobs assignments).unturned e₁ ∧ j ∈ e₁.jobs ∧ j.number = e.nextNumber + i ∧
      j.isReady e₁ = true ∧ j.stage.isArriving = true ∧ j.assignment = .submit orders ∧
      e₁.now = e.now + wait ∧ Clocked (e.addJobs assignments).unturned e₁ j.number [] [] ∧
      Course (e₁.serveJob j) done := by
  have hregular := hrest.regular assignments
  obtain ⟨k, hk, hnumber, hassignment⟩ := hrest.exists_job hcourse hassigned
  obtain ⟨time, ending, hfinished⟩ := hsettled.finished
    (Course.regular hcourse hregular).reached.wellFormed (List.mem_of_getElem? hk)
    (by rw [hassignment]; rfl)
  have harriving : ∀ j ∈ (e.addJobs assignments).unturned.jobs, j.stage.isArriving = true := by
    intro j hj
    obtain ⟨due, hstage⟩ := hrest.arriving hj
    rw [hstage]
    rfl
  rcases Course.left hcourse hregular harriving k (List.mem_of_getElem? hk) with
    hwaits | ⟨e₁, j, hbefore, hj, hsame, hready, ⟨hstage, _⟩, hafter⟩
  · rw [hfinished] at hwaits
    cases hwaits
  · have htimely := hbefore.keeps Move.timely (hrest.timely hassigned)
    obtain ⟨hsubmits, calls, opened, hpunctual⟩ := htimely.punctual j hj (hsame.trans hnumber)
    obtain ⟨number, a, stage, turn⟩ := j
    obtain rfl : number = e.nextNumber + i := hsame.trans hnumber
    cases hpunctual.onTime with
    | arriving fresh timely =>
      subst fresh
      exact ⟨e₁, _, hbefore, hj, rfl, hready, rfl, hsubmits,
        Nat.le_antisymm timely (of_decide_eq_true hready), hpunctual.clocked, hafter⟩
    | calling | backingOff | joining | pausing | finished => cases hstage

/-- **A submission makes its first call exactly if its budget lies before the end of the clock.** The sum
of all delays, and the time budget, can be computed exactly if they are time spans. Every delay is at most a
word, so that up to a thousand spans of a word are no trouble for the sum, and half as many none for the
clock. Whatever else goes on: a turn that begins to send orders with bulk calls either makes the first
call at once, namely if the budget ends before the clock does, or breaks its job off with nothing done. So
the first bulk call of a submission that is performed begins at the instant at which the submission is due,
or the submission breaks off at that instant without any. -/
theorem first_call_iff_budget_before_clock_end {e : Engine P R} (hrest : e.AtRest)
    (hbulk : e.desk.fallback.bulkEnabled = true) (assignments : List (Nat × Assignment P)) :
    let c := e.desk.fallback
    let start := (e.addJobs assignments).unturned
    let fits (begin : Nat) := begin + c.timeBudget < clockEnd
    c.retry.totalBackoff = RetryConfig.checkedSpan (c.retry.waits c.retry.maxRetries) ∧
      c.retry.totalBudget c.callTimeout = RetryConfig.checkedSpan c.timeBudget ∧
      (∀ k, c.retry.delay k ≤ maxWord) ∧
      (c.callTimeout ≤ maxWord → c.retry.maxRetries ≤ 999 →
        ∃ budget, c.retry.totalBudget c.callTimeout = .ok budget) ∧
      (c.callTimeout ≤ maxWord → c.retry.maxRetries ≤ 498 → ∀ begin ≤ maxWord, fits begin) ∧
      (∀ e' j orders, Course start e' → j ∈ e'.jobs → BeginsToSend orders e' j →
        (fits e'.now → CallsFirst orders e' j) ∧ (¬ fits e'.now → BreaksOff e' j)) ∧
      ∀ i wait orders, assignments[i]? = some (wait, .submit orders) → orders ≠ [] →
        let result := e.perform assignments
        let starts := bulkStarts (e.nextNumber + i) (result.1.since e.journal.length)
        (fits (e.now + wait) → starts.head? = some (e.now + wait)) ∧
          (¬ fits (e.now + wait) →
            starts = [] ∧ result.2[i]? = some (some (e.now + wait, .error .overflow))) := by
  intro c start fits
  obtain ⟨hsame, hearlier⟩ : start.desk = e.desk ∧ start.journal = e.journal := by
    simp only [start, addJobs_eq]
    exact ⟨rfl, rfl⟩
  have hturn : ∀ e' j orders, Course start e' → BeginsToSend orders e' j →
      (fits e'.now → CallsFirst orders e' j) ∧ (¬ fits e'.now → BreaksOff e' j) := by
    intro e' j orders hcourse hbegins
    have hdesk : e'.desk = e.desk :=
      (Course.desk hcourse (hrest.wellFormed assignments)).trans hsame
    have hbulk' : e'.desk.fallback.bulkEnabled = true := hdesk ▸ hbulk
    refine ⟨fun htime => hbegins.calls hbulk' ?_, fun hlate => hbegins.breaksOff hbulk' ?_⟩
    · rw [hdesk]
      exact htime
    · rw [hdesk]
      exact hlate
  have hwaits := c.retry.waits_le c.retry.maxRetries
  refine ⟨c.retry.totalBackoff_checked, c.retry.totalBudget_checked c.callTimeout, c.retry.delay_le,
    ?_, ?_, fun e' j orders hcourse _ hbegins => hturn e' j orders hcourse hbegins, ?_⟩
  · intro hcall hfew
    have hsum : c.retry.maxRetries * maxWord ≤ 999 * maxWord := Nat.mul_le_mul_right _ hfew
    exact ⟨_, (c.retry.totalBudget_checked _).trans (RetryConfig.checkedSpan_fits (by omega))⟩
  · intro hcall hfew begin hbegin
    have hsum : c.retry.maxRetries * maxWord ≤ 498 * maxWord := Nat.mul_le_mul_right _ hfew
    have hclock : 500 * maxWord < clockEnd := by decide
    simp only [fits, FallbackConfig.timeBudget]
    omega
  · intro i wait orders hassigned hsome result starts
    obtain ⟨done, hcourse, hsettled, hwf, hdone, hendings⟩ := perform_course hrest assignments
    obtain ⟨e₁, j, hbefore, hj, hnumber, hready, harriving, hassignment, hnow, hclocked, hafter⟩ :=
      hrest.began hassigned hcourse hsettled
    have hbegins : BeginsToSend orders e₁ j := .submission harriving hsome hassignment
    have hregular := hrest.regular assignments
    have hregular₁ := (Move.job hj hready).regular (Course.regular hbefore hregular)
    have hstarts : starts = bulkStarts j.number (done.since start.journal.length) := by
      rw [hearlier, hnumber]
      exact congrArg (fun x => bulkStarts _ (x.since e.journal.length)) hdone
    obtain ⟨hcalls, hbreaks⟩ := hturn e₁ j orders hbefore hbegins
    rw [hnow] at hcalls hbreaks
    refine ⟨?_, ?_⟩
    · intro htime
      have hcalled := hclocked.called (hcalls htime).journal
      obtain ⟨more, hmore, _⟩ := Course.bulkStarts_grow (hbefore.tail (.job hj hready)) hregular
        hafter j.number
      rw [hstarts, hmore, hcalled.since.1, hnow]
      rfl
    · intro hlate
      obtain ⟨hstage, hjournal⟩ := hbreaks hlate
      have hself := self_mem_serveJob (Course.regular hbefore hregular).reached.wellFormed hj hready
      obtain ⟨hstays, hsilent⟩ := Course.ended hafter hregular₁ hself hstage
      have hnone : Clocked start (e₁.serveJob j) j.number [] [] := hclocked.aside (.nothing hjournal)
      have hnone' := hnone.aside (hsilent.mono fun event hother _ => hother)
      refine ⟨hstarts.trans hnone'.since.1, ?_⟩
      obtain ⟨k, hk, hsame, _⟩ := hrest.exists_job hcourse hassigned
      obtain rfl := hwf.job_unique (List.mem_of_getElem? hk) hstays (hsame.trans hnumber.symm)
      rw [hendings, List.getElem?_map, hk, Option.map_some, Job.ending?, hstage, hnow]

/-- The same submission under two settings that are accepted. With the usual ones it makes its first call
at once. With a thousand retries, each after the longest delay there is, it breaks off. -/
theorem thousand_longest_delays_break_off :
    let order := Order.limit 1 0 "C-1" "ACME" .buy (.ofNat 1) (.ofNat 10)
    let service : Service := { bulk := fun _ _ => .hangs, single := fun _ _ => .hangs }
    let gate (c : AppConfig) : Engine Order Acknowledgement :=
      begun (.forOrders c service (.table 0)) c.breaker c.overload none (Table.ofIds []) 0
    let usual : AppConfig := {}
    let patient : AppConfig :=
      { fallback := { retry := { maxRetries := 1000, baseDelay := maxWord, multiplier := 1.0 } } }
    (∀ c ∈ [usual, patient], c.isValid = true ∧ (gate c).AtRest ∧
        (gate c).desk.fallback.bulkEnabled = true) ∧
      (bulkStarts 0 (((gate usual).perform [(0, .submit [order])]).1.since 0)).head? = some 0 ∧
      patient.fallback.retry.totalBudget patient.fallback.callTimeout = .error .overflow ∧
      bulkStarts 0 (((gate patient).perform [(0, .submit [order])]).1.since 0) = [] ∧
      ((gate patient).perform [(0, .submit [order])]).2[0]? = some (some (0, .error .overflow)) := by
  intro order service gate usual patient
  have hrest (c : AppConfig) : (gate c).AtRest := begun_atRest _ _ _ _ _ _
  have hvalid : ∀ c ∈ [usual, patient], c.isValid = true := by decide +kernel
  have hlongest : patient.fallback.timeBudget = 60000 + 1000 * maxWord := by
    have hdelay : patient.fallback.retry.delay 0 = maxWord := by decide +kernel
    rw [FallbackConfig.timeBudget, RetryConfig.waits_steady rfl, hdelay]
  obtain ⟨_, _, _, _, hfew, _, hcalls⟩ :=
    first_call_iff_budget_before_clock_end (hrest usual) rfl [(0, .submit [order])]
  obtain ⟨_, hbudget, _, _, _, _, hbreaks⟩ :=
    first_call_iff_budget_before_clock_end (hrest patient) rfl [(0, .submit [order])]
  have htime := hfew (by decide) (by decide) 0 (Nat.zero_le _)
  have hlate : ¬ 0 + patient.fallback.timeBudget < clockEnd := by
    rw [hlongest]
    decide
  obtain ⟨hnone, hending⟩ := (hbreaks 0 0 [order] rfl (List.cons_ne_nil _ _)).2 hlate
  refine ⟨?_, (hcalls 0 0 [order] rfl (List.cons_ne_nil _ _)).1 htime, ?_, hnone, hending⟩
  · intro c hc
    refine ⟨hvalid c hc, hrest c, ?_⟩
    rcases List.mem_cons.mp hc with rfl | hlast
    · rfl
    · rw [List.mem_singleton.mp hlast]
      rfl
  · refine hbudget.trans ?_
    change RetryConfig.checkedSpan patient.fallback.timeBudget = _
    rw [hlongest]
    decide

end Engine
end OrderAdmission
