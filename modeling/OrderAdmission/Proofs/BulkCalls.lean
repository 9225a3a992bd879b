import OrderAdmission.Proofs.Acknowledgements
import OrderAdmission.Proofs.Circuit

/-!
# The bulk calls of a submission

A submission makes bulk calls until one is answered or they are given up. They are given up after a
failure that calls for no other attempt, or when no retry is left, or when the breaker refuses, or when
the time is over: `LastStraw` lists these four, and a failure that is none of them leads to another
call, or to a number that leaves its range.

How many calls have been made is told by the stage of the submission as long as it makes calls, and by
its receipt afterwards. This is an invariant, `Passage`, which also says what a submission has not done
at each stage. From it follows `Course.passages`: **what a submission says of its bulk calls is true on
every course**.
-/
namespace OrderAdmission

variable {P R : Type}

def Event.isBulkCall (job : Nat) : Event P R → Bool
  | .bulkCalled k _ => k == job
  | _ => false

/-- The number of bulk calls that a submission may have made, when it makes no more. -/
def FallbackConfig.Spends (c : FallbackConfig) (calls : Nat) : Prop :=
  calls ≤ 1 + c.retry.maxRetries ∧ (c.bulkEnabled = false → calls = 0)

/-- Whether a batch of this size may go order by order after its bulk calls have been given up. -/
def FallbackConfig.Eligible (c : FallbackConfig) (size : Nat) : Prop :=
  c.enabled = true ∧ size ≤ c.maxIndividualOrders

namespace Engine

/-! ### The end of a bulk call -/

/-- The failure of a bulk call that has come back or is cut off, if it has failed. -/
def bulkFailure? (e : Engine P R) (orders : List P) (run : BulkRun R) :
    Option DownstreamFailure :=
  match run.call.reply? e.now with
  | some (some (.ok items)) =>
    if items.length = orders.length then none
    else some (.miscounted items.length orders.length)
  | some (some (.error failure)) => some failure
  | some none => none
  | none => some (.timedOut s!"bulk call exceeded {e.desk.fallback.callTimeout}ms")

/-- Why no other bulk call follows after a failure. -/
inductive LastStraw (e : Engine P R) (run : BulkRun R) (failure : DownstreamFailure) : Prop where
  /-- The failure calls for no other attempt. -/
  | untriggered (h : e.desk.fallback.retry.triggers failure = false)
  /-- No retry is left. -/
  | exhausted (h : e.desk.fallback.retry.maxRetries < run.attempt)
  /-- With the failure on its count, the breaker refuses. -/
  | barred {breaker : Breaker}
      (asked : (e.breaker.recordFailure e.wall).allow (e.wallAfter 1) = .ok (false, breaker))
  /-- After the delay, the time budget would be over. -/
  | late {breaker : Breaker}
      (asked : (e.breaker.recordFailure e.wall).allow (e.wallAfter 1) = .ok (true, breaker))
      (h : run.deadline ≤ e.now + e.desk.fallback.retry.delay (run.attempt - 1))

section
variable {e : Engine P R} (job : Nat) (a : Assignment P) {run : BulkRun R}
  {failure : DownstreamFailure}

theorem bulkTurn_failed (h : e.bulkFailure? a.orders run = some failure) :
    e.bulkTurn job a run = (e.heardBulk job run).bulkFailed job a run failure := by
  unfold bulkFailure? at h
  unfold bulkTurn heardBulk
  split at h
  · rename_i items hreply
    simp only [hreply]
    split at h
    · cases h
    · rename_i hcount
      rw [if_neg hcount, ← Option.some.inj h]
  · rename_i hreply
    rw [← Option.some.inj h, hreply]
  · cases h
  · rename_i hreply
    rw [← Option.some.inj h, hreply]

/-- A bulk call that has not failed has been answered, or the collaborator has broken off. -/
theorem bulkTurn_of_not_failed (h : e.bulkFailure? a.orders run = none) :
    (∃ items, run.call.reply? e.now = some (some (.ok items)) ∧ items.length = a.orders.length ∧
        e.bulkTurn job a run = (e.heardBulk job run).bulkAnswered job a run items) ∨
      e.bulkTurn job a run = e.conclude a (.error .collaborator) := by
  unfold bulkTurn heardBulk
  cases hreply : run.call.reply? e.now with
  | none => simp only [bulkFailure?, hreply, reduceCtorEq] at h
  | some reply =>
    rcases reply with _ | failure | items
    · exact .inr rfl
    · simp only [bulkFailure?, hreply, reduceCtorEq] at h
    · by_cases hcount : items.length = a.orders.length
      · refine .inl ⟨items, rfl, hcount, ?_⟩
        simp only [hcount, if_true]
      · simp only [bulkFailure?, hreply, hcount, if_false, reduceCtorEq] at h

theorem bulkFailed_untriggered (h : e.desk.fallback.retry.triggers failure = false) :
    e.bulkFailed job a run failure = e.conclude a (.ok (.error (.downstream failure false))) := by
  rw [bulkFailed_eq]
  simp only [h, Bool.not_false, if_true]

/-- After the last straw, a failure that calls for another attempt leads to the fallback. -/
theorem bulkFailed_givenUp (htriggers : e.desk.fallback.retry.triggers failure = true)
    (hattempt : 1 ≤ run.attempt) (hstraw : e.LastStraw run failure) :
    ∃ e', Paper job e e' ∧
      e.bulkFailed job a run failure = e'.fallBack job a run.attempt failure := by
  have htold : Paper job e (e.report job .failure) := .single (.reports .failure)
  rw [bulkFailed_eq]
  simp only [htriggers, Bool.not_true, Bool.false_eq_true, if_false]
  by_cases hleft : e.desk.fallback.retry.maxRetries ≤ run.attempt - 1
  · exact ⟨_, htold, if_pos hleft⟩
  · rw [if_neg hleft]
    cases hstraw with
    | untriggered h =>
      rw [htriggers] at h
      cases h
    | exhausted h => omega
    | @barred breaker asked =>
      have hasked : (e.report job .failure).breaker.allow (e.report job .failure).wall =
          .ok (false, breaker) := asked
      rw [hasked]
      exact ⟨_, htold.tail (.asks hasked), rfl⟩
    | @late breaker asked h =>
      have hasked : (e.report job .failure).breaker.allow (e.report job .failure).wall =
          .ok (true, breaker) := asked
      rw [hasked]
      exact ⟨_, htold.tail (.asks hasked), if_pos h⟩

/-- A failure that is not the last straw is followed by another call, unless the work breaks off. -/
theorem bulkFailed_goesOn (hattempt : 1 ≤ run.attempt) (hstraw : ¬ e.LastStraw run failure) :
    ∃ e', Paper job e e' ∧
      ((∃ crash, e.bulkFailed job a run failure = e'.conclude a (.error crash)) ∨
        run.attempt ≤ e.desk.fallback.retry.maxRetries ∧ ∃ due,
          e.bulkFailed job a run failure = (e', .backingOff run.attempt run.deadline due)) := by
  have htold : Paper job e (e.report job .failure) := .single (.reports .failure)
  have htriggers : e.desk.fallback.retry.triggers failure = true := by
    by_contra h
    exact hstraw (.untriggered (by simpa using h))
  have hleft : run.attempt ≤ e.desk.fallback.retry.maxRetries := by
    by_contra h
    exact hstraw (.exhausted (by omega))
  rw [bulkFailed_eq]
  simp only [htriggers, Bool.not_true, Bool.false_eq_true, if_false]
  rw [if_neg (by omega)]
  cases hasked : (e.report job .failure).breaker.allow (e.report job .failure).wall with
  | error crash => exact ⟨_, htold, .inl ⟨crash, rfl⟩⟩
  | ok answer =>
    obtain ⟨allowed, breaker⟩ := answer
    cases allowed with
    | false => exact absurd (.barred hasked) hstraw
    | true =>
      have hearly : ¬ run.deadline ≤ e.now + e.desk.fallback.retry.delay (run.attempt - 1) :=
        fun h => hstraw (.late hasked h)
      exact ⟨(e.report job .failure).setBreaker breaker, htold.tail (.asks hasked),
        .inr ⟨hleft, _, if_neg hearly⟩⟩

end

/-! ### The fallback -/

section
variable (e : Engine P R) (job attempts : Nat) (a : Assignment P) (failure : DownstreamFailure)

theorem fallBack_barred (h : ¬ e.desk.fallback.Eligible a.orders.length) :
    e.fallBack job a attempts failure = e.conclude a (.ok (.error (.downstream failure true))) := by
  refine if_pos ?_
  by_cases henabled : e.desk.fallback.enabled = true
  · exact .inr (Nat.lt_of_not_le fun hle => h ⟨henabled, hle⟩)
  · exact .inl (by simpa using henabled)

theorem fallBack_eligible (h : e.desk.fallback.Eligible a.orders.length) :
    e.fallBack job a attempts failure = e.sendSingly job a attempts := by
  refine if_neg ?_
  rintro (hdisabled | hlarge)
  · rw [h.1] at hdisabled
    cases hdisabled
  · exact absurd h.2 (Nat.not_le_of_lt hlarge)

theorem admitBulk_not_downstream {b b' : Breaker} {wall : Int} {error : GateError}
    (h : b.admitBulk wall = .ok (.error error, b')) (f : DownstreamFailure) (r : Bool) :
    error ≠ .downstream f r := by
  cases Breaker.admitBulk_refusal h with
  | circuit _ _ _ => exact GateError.noConfusion
  | pool _ _ => exact GateError.noConfusion

/-- What the executor makes of orders that are sent one by one: it breaks off or refuses them at once,
or the first chunk begins. -/
theorem sendSingly_cases (hsome : a.orders ≠ []) :
    ∃ e', Paper job e e' ∧
      ((∃ crash, e.sendSingly job a attempts = e'.conclude a (.error crash)) ∨
        (∃ error, e.sendSingly job a attempts = e'.conclude a (.ok (.error error)) ∧
          ∀ f r, error ≠ .downstream f r) ∨
        ∃ run, e.sendSingly job a attempts = e'.openChunk job attempts run) := by
  have htasks : (BatchTask.ofPayloads a.orders).isEmpty = false :=
    List.isEmpty_eq_false_iff.mpr (BatchTask.ofPayloads_ne_nil hsome)
  unfold sendSingly
  rw [startBatch_eq, htasks, checkTasks_ofPayloads]
  simp only [Bool.false_eq_true, if_false]
  split
  · rename_i crash hasked
    exact ⟨e, .refl, .inl ⟨crash, rfl⟩⟩
  · rename_i error breaker hasked
    exact ⟨_, .single (.admits hasked), .inr (.inl ⟨error, rfl, admitBulk_not_downstream hasked⟩)⟩
  · rename_i breaker hasked
    exact ⟨_, .single (.admits hasked), .inr (.inr ⟨_, rfl⟩)⟩

end

/-! ### Counting the calls -/

def bulkCount (e : Engine P R) (job : Nat) : Nat :=
  e.journal.countP (·.event.isBulkCall job)

section
variable {e e' : Engine P R} {job : Nat}

theorem bulkCount_adds {p : Event P R → Prop} (hadds : Adds p e e')
    (hp : ∀ event, p event → event.isBulkCall job = false) : e'.bulkCount job = e.bulkCount job := by
  obtain ⟨added, hjournal, hadded⟩ := hadds
  have hnone : added.countP (·.event.isBulkCall job) = 0 := by
    apply List.countP_eq_zero.mpr
    intro x hx
    rw [hp x.event (hadded x hx)]
    exact Bool.false_ne_true
  rw [bulkCount, hjournal, List.countP_append, hnone, Nat.zero_add]
  rfl

theorem Aside.not_bulkCall {event : Event P R} (h : Aside job event) :
    event.isBulkCall job = false := by
  cases event with
  | bulkCalled k orders =>
    have hne : k ≠ job := h.job_ne rfl
    simpa [Event.isBulkCall] using hne
  | _ => rfl

theorem bulkCount_aside (haside : Adds (Aside job) e e') : e'.bulkCount job = e.bulkCount job :=
  bulkCount_adds haside fun _ => Aside.not_bulkCall

theorem bulkCount_heardBulk (e : Engine P R) (job : Nat) (run : BulkRun R) :
    (e.heardBulk job run).bulkCount job = e.bulkCount job := by
  unfold heardBulk
  split <;> rfl

end

/-- What is known of a submission at a stage, after so many bulk calls. -/
inductive Passage (c : FallbackConfig) (e : Engine P R) (job : Nat) : Nat → Stage P R → Prop where
  | arriving {due : Nat} (unsent : e.Unsent job) : Passage c e job 0 (.arriving due)
  | calling {calls : Nat} {run : BulkRun R} (used : c.bulkEnabled = true)
      (count : run.attempt = calls) (first : 1 ≤ calls) (bound : calls ≤ 1 + c.retry.maxRetries)
      (unsent : e.Unsent job) : Passage c e job calls (.calling run)
  | backingOff {attempt deadline due : Nat} (used : c.bulkEnabled = true)
      (bound : attempt ≤ c.retry.maxRetries) (unsent : e.Unsent job) :
      Passage c e job attempt (.backingOff attempt deadline due)
  | joining {attempts : Nat} {run : BatchRun P R} (spent : c.Spends attempts) :
      Passage c e job attempts (.joining attempts run)
  | pausing {attempts due : Nat} {run : BatchRun P R} (spent : c.Spends attempts) :
      Passage c e job attempts (.pausing attempts run due)
  /-- The work has broken off. -/
  | crashed {calls time : Nat} {crash : Crash} (spent : c.Spends calls) :
      Passage c e job calls (.finished time (.error crash))
  /-- It has ended with an error, and nothing has been sent singly. -/
  | refused {calls time : Nat} {error : GateError} (spent : c.Spends calls) (unsent : e.Unsent job)
      (verdict : ∀ f r, error = .downstream f r → r = c.retry.triggers f) :
      Passage c e job calls (.finished time (.ok (.error error)))
  /-- It has ended with a result and says how many calls there were. -/
  | returned {calls time : Nat} {result : BatchResult R} (spent : c.Spends calls) :
      Passage c e job calls (.finished time (.ok (.ok (.submission
        { phase := .ofResult result, result, bulkAttempts := calls }))))

theorem Passage.aside {c : FallbackConfig} {e e' : Engine P R} {job calls : Nat} {stage : Stage P R}
    (h : Passage c e job calls stage) (haside : Adds (Aside job) e e') :
    Passage c e' job calls stage := by
  cases h with
  | arriving unsent => exact .arriving (unsent.aside haside)
  | calling used count first bound unsent =>
    exact .calling used count first bound (unsent.aside haside)
  | backingOff used bound unsent => exact .backingOff used bound (unsent.aside haside)
  | joining spent => exact .joining spent
  | pausing spent => exact .pausing spent
  | crashed spent => exact .crashed spent
  | refused spent unsent verdict => exact .refused spent (unsent.aside haside) verdict
  | returned spent => exact .returned spent

/-- A turn of a submission that has made so many calls leads to this, with all further calls counted;
only a turn that leads to more calls makes one. -/
def CountsCalls (e : Engine P R) (job calls : Nat) (result : Engine P R × Stage P R) : Prop :=
  ∃ more, result.1.bulkCount job = e.bulkCount job + more ∧
    Passage e.desk.fallback result.1 job (calls + more) result.2 ∧
    (result.2.isSending = false → more = 0)

section
variable {e e' : Engine P R} {job calls : Nat} {orders : List P}

theorem CountsCalls.after {result : Engine P R × Stage P R} (h : CountsCalls e' job calls result)
    (haside : Adds (Aside job) e e') (hdesk : e'.desk = e.desk) : CountsCalls e job calls result := by
  obtain ⟨more, hcount, hpassage, hlast⟩ := h
  refine ⟨more, ?_, ?_, hlast⟩
  · rw [hcount, bulkCount_aside haside]
  · rw [← hdesk]
    exact hpassage

theorem CountsCalls.afterPaper {result : Engine P R × Stage P R} (h : CountsCalls e' job calls result)
    (hpaper : Paper job e e') : CountsCalls e job calls result :=
  h.after (Paper.aside hpaper) hpaper.frame.floor.desk

theorem Passage.counts {result : Engine P R × Stage P R}
    (h : Passage e.desk.fallback result.1 job calls result.2)
    (haside : Adds (Aside job) e result.1) : CountsCalls e job calls result :=
  ⟨0, bulkCount_aside haside, h, fun _ => rfl⟩

theorem conclude_crash_counts (hspent : e.desk.fallback.Spends calls) (crash : Crash) :
    CountsCalls e job calls (e.conclude (.submit orders) (.error crash)) :=
  Passage.counts (.crashed hspent) (conclude_stores e job _ _).aside

theorem conclude_error_counts (hspent : e.desk.fallback.Spends calls) (hunsent : e.Unsent job)
    {error : GateError}
    (hverdict : ∀ f r, error = .downstream f r → r = e.desk.fallback.retry.triggers f) :
    CountsCalls e job calls (e.conclude (.submit orders) (.ok (.error error))) := by
  have haside : Adds (Aside job) e (e.conclude (.submit orders) (.ok (.error error))).1 :=
    (conclude_stores e job _ _).aside
  exact Passage.counts (.refused hspent (hunsent.aside haside) hverdict) haside

theorem sendSingly_counts (hspent : e.desk.fallback.Spends calls) (hunsent : e.Unsent job)
    (hsome : orders ≠ []) : CountsCalls e job calls (e.sendSingly job (.submit orders) calls) := by
  obtain ⟨e', hpaper, hcases⟩ := sendSingly_cases e job calls (.submit orders) hsome
  have hspent' : e'.desk.fallback.Spends calls := by
    rw [hpaper.frame.floor.desk]
    exact hspent
  refine CountsCalls.afterPaper ?_ hpaper
  rcases hcases with ⟨crash, heq⟩ | ⟨error, heq, hnot⟩ | ⟨run, heq⟩
  · rw [heq]
    exact conclude_crash_counts hspent' crash
  · rw [heq]
    exact conclude_error_counts hspent' (hunsent.aside (Paper.aside hpaper))
      fun f r herror => absurd herror (hnot f r)
  · rw [heq]
    exact Passage.counts (.joining hspent') (.nothing rfl)

theorem fallBack_counts (hspent : e.desk.fallback.Spends calls) (hunsent : e.Unsent job)
    (hsome : orders ≠ []) {failure : DownstreamFailure}
    (htriggers : e.desk.fallback.retry.triggers failure = true) :
    CountsCalls e job calls (e.fallBack job (.submit orders) calls failure) := by
  by_cases heligible : e.desk.fallback.Eligible (Assignment.submit orders).orders.length
  · rw [fallBack_eligible e job calls _ failure heligible]
    exact sendSingly_counts hspent hunsent hsome
  · rw [fallBack_barred e job calls _ failure heligible]
    refine conclude_error_counts hspent hunsent ?_
    intro f r herror
    obtain ⟨rfl, rfl⟩ := GateError.downstream.inj herror
    exact htriggers.symm

theorem bulkFailed_counts {run : BulkRun R} (hused : e.desk.fallback.bulkEnabled = true)
    (hfirst : 1 ≤ run.attempt) (hbound : run.attempt ≤ 1 + e.desk.fallback.retry.maxRetries)
    (hunsent : e.Unsent job) (hsome : orders ≠ []) (failure : DownstreamFailure) :
    CountsCalls e job run.attempt (e.bulkFailed job (.submit orders) run failure) := by
  have hspent : e.desk.fallback.Spends run.attempt :=
    ⟨hbound, fun hunused => by simp [hused] at hunused⟩
  by_cases hstraw : e.LastStraw run failure
  · cases htriggers : e.desk.fallback.retry.triggers failure with
    | false =>
      rw [bulkFailed_untriggered job (.submit orders) htriggers]
      refine conclude_error_counts hspent hunsent ?_
      intro f r herror
      obtain ⟨rfl, rfl⟩ := GateError.downstream.inj herror
      exact htriggers.symm
    | true =>
      obtain ⟨e', hpaper, heq⟩ := bulkFailed_givenUp job (.submit orders) htriggers hfirst hstraw
      have hdesk : e'.desk = e.desk := hpaper.frame.floor.desk
      rw [heq]
      exact (fallBack_counts (hdesk ▸ hspent) (hunsent.aside (Paper.aside hpaper)) hsome
        (hdesk ▸ htriggers)).afterPaper hpaper
  · obtain ⟨e', hpaper, hcases⟩ := bulkFailed_goesOn job (.submit orders) hfirst hstraw
    have hdesk : e'.desk = e.desk := hpaper.frame.floor.desk
    refine CountsCalls.afterPaper ?_ hpaper
    rcases hcases with ⟨crash, heq⟩ | ⟨hleft, due, heq⟩
    · rw [heq]
      exact conclude_crash_counts (hdesk ▸ hspent) crash
    · rw [heq]
      exact Passage.counts (.backingOff (hdesk ▸ hused) (hdesk ▸ hleft)
        (hunsent.aside (Paper.aside hpaper))) (.nothing rfl)

theorem bulkTurn_counts {run : BulkRun R} (hused : e.desk.fallback.bulkEnabled = true)
    (hfirst : 1 ≤ run.attempt) (hbound : run.attempt ≤ 1 + e.desk.fallback.retry.maxRetries)
    (hunsent : e.Unsent job) (hsome : orders ≠ []) :
    CountsCalls e job run.attempt (e.bulkTurn job (.submit orders) run) := by
  have hspent : e.desk.fallback.Spends run.attempt :=
    ⟨hbound, fun hunused => by simp [hused] at hunused⟩
  -- What comes back is noted, and that is neither a call nor anything sent singly.
  have hended : Adds (fun event => ∃ answer, event = .bulkEnded job answer) e
      (e.heardBulk job run) := by
    unfold heardBulk
    split
    · exact .nothing rfl
    · exact .one rfl ⟨_, rfl⟩
    · exact .one rfl ⟨_, rfl⟩
  have hdesk : (e.heardBulk job run).desk = e.desk := by
    unfold heardBulk
    split <;> rfl
  have hunsent' : (e.heardBulk job run).Unsent job := by
    refine hunsent.adds hended ?_
    rintro event ⟨answer, rfl⟩ _
    rfl
  have hheard {result : Engine P R × Stage P R}
      (h : CountsCalls (e.heardBulk job run) job run.attempt result) :
      CountsCalls e job run.attempt result := by
    obtain ⟨more, hcount, hpassage, hlast⟩ := h
    exact ⟨more, by rw [hcount, bulkCount_heardBulk], hdesk ▸ hpassage, hlast⟩
  cases hfailure : e.bulkFailure? (Assignment.submit orders).orders run with
  | some failure =>
    rw [bulkTurn_failed job (.submit orders) hfailure]
    exact hheard (bulkFailed_counts (hdesk ▸ hused) hfirst (hdesk ▸ hbound) hunsent' hsome failure)
  | none =>
    rcases bulkTurn_of_not_failed job (.submit orders) hfailure with
      ⟨items, _, _, heq⟩ | heq
    · rw [heq]
      apply hheard
      exact Passage.counts (.returned (hdesk ▸ hspent))
        ((Paper.aside (.single (.reports .success))).trans
          (answered_stores ((e.heardBulk job run).report job .success) job (.submit orders)
            run.attempt { outcomes := items.map .ofItem }).aside)
    · rw [heq]
      exact conclude_crash_counts hspent .collaborator

theorem callBulk_counts (hused : e.desk.fallback.bulkEnabled = true)
    (hbound : calls ≤ e.desk.fallback.retry.maxRetries) (hunsent : e.Unsent job) (deadline : Nat) :
    CountsCalls e job calls (e.callBulk job (.submit orders) (calls + 1) deadline) := by
  rw [callBulk_eq]
  split
  · exact conclude_crash_counts
      ⟨Nat.le_trans hbound (Nat.le_add_left _ _), fun hunused => by simp [hused] at hunused⟩ _
  · have hcalled : Adds (fun event => event = .bulkCalled job orders) e
        (e.placeCall job (.submit orders) (calls + 1) deadline).1 := .one rfl rfl
    refine ⟨1, ?_, .calling hused rfl (Nat.le_add_left _ _) (by omega) ?_, nofun⟩
    · simp [placeCall, bulkCount, note, Event.isBulkCall]
    · apply hunsent.adds hcalled
      rintro event rfl _
      rfl

theorem startSubmission_counts (hunsent : e.Unsent job) (hsome : orders ≠ []) :
    CountsCalls e job 0 (e.startSubmission job (.submit orders)) := by
  have hspent : e.desk.fallback.Spends 0 := ⟨Nat.zero_le _, fun _ => rfl⟩
  unfold startSubmission
  cases hused : e.desk.fallback.bulkEnabled with
  | false => exact sendSingly_counts hspent hunsent hsome
  | true =>
    simp only [Bool.not_true, Bool.false_eq_true, if_false]
    split
    · exact conclude_crash_counts hspent _
    · split
      · exact callBulk_counts hused (Nat.zero_le _) hunsent _
      · exact conclude_crash_counts hspent _

theorem Joins.not_sending {result : Engine P R × Stage P R} {run : BatchRun P R}
    (h : Joins e job (.submit orders) calls run result) : result.2.isSending = false := by
  cases h with
  | collects | pauses | reopens | finishes => rfl

theorem joins_counts {result : Engine P R × Stage P R} {run : BatchRun P R}
    (h : Joins e job (.submit orders) calls run result) (hspent : e.desk.fallback.Spends calls) :
    CountsCalls e job calls result := by
  have hsettled := settled_aside e job job run
  cases h with
  | collects found => exact Passage.counts (.joining hspent) (.nothing rfl)
  | pauses none some => exact Passage.counts (.pausing hspent) hsettled
  | reopens none some => exact Passage.counts (.joining hspent) (hsettled.trans (.nothing rfl))
  | finishes none last =>
    exact Passage.counts (.returned hspent) (hsettled.trans (answered_stores _ _ _ _ _).aside)

end

/-- **A turn of a submission counts its bulk calls.** -/
theorem jobTurn_counts {e : Engine P R} {j : Job P R} (hready : j.isReady e = true)
    {orders : List P} (hassignment : j.assignment = .submit orders) (hsome : orders ≠ [])
    {calls : Nat} (h : Passage e.desk.fallback e j.number calls j.stage) :
    CountsCalls e j.number calls (e.jobTurn j) := by
  obtain ⟨number, a, stage, turn⟩ := j
  obtain rfl : a = .submit orders := hassignment
  cases h with
  | arriving unsent =>
    have hnonempty : orders.isEmpty = false := List.isEmpty_eq_false_iff.mpr hsome
    simp only [jobTurn, startJob, hnonempty, Bool.false_eq_true, if_false]
    exact startSubmission_counts unsent hsome
  | calling used count first bound unsent =>
    subst count
    exact bulkTurn_counts used first bound unsent hsome
  | backingOff used bound unsent => exact callBulk_counts used bound unsent _
  | @joining attempts run spent =>
    have hroute := joinTurn_route (e := e)
      (j := ⟨number, .submit orders, .joining calls run, turn⟩) rfl
    exact joins_counts hroute.onward spent
  | pausing spent => exact Passage.counts (.joining spent) (.nothing rfl)
  | crashed spent | refused spent unsent verdict | returned spent => cases hready

/-- A submission that makes no more bulk calls will not make any. -/
theorem jobTurn_not_sending {e : Engine P R} {j : Job P R} (hready : j.isReady e = true)
    {orders : List P} (hassignment : j.assignment = .submit orders) {c : FallbackConfig}
    {calls : Nat} (h : Passage c e j.number calls j.stage) (hlast : j.stage.isSending = false) :
    (e.jobTurn j).2.isSending = false := by
  obtain ⟨number, a, stage, turn⟩ := j
  obtain rfl : a = .submit orders := hassignment
  cases h with
  | arriving | calling | backingOff => cases hlast
  | @joining attempts run spent =>
    have hroute := joinTurn_route (e := e)
      (j := ⟨number, .submit orders, .joining calls run, turn⟩) rfl
    exact Joins.not_sending hroute.onward
  | pausing spent => rfl
  | crashed spent | refused spent unsent verdict | returned spent => cases hready

/-! ### Moves -/

/-- Every submission knows the number of its bulk calls, counted on top of those that its number had
before. -/
def Passages (start e : Engine P R) : Prop :=
  ∀ j ∈ e.jobs, ∀ orders, j.assignment = .submit orders → orders ≠ [] →
    ∃ calls, e.bulkCount j.number = start.bulkCount j.number + calls ∧
      Passage start.desk.fallback e j.number calls j.stage

theorem serveWorker_bulkCount {e : Engine P R} {w : Worker P R}
    (hready : w.isReady e.limiter e.now = true) :
    (e.serveWorker w).bulkCount w.job = e.bulkCount w.job := by
  have hsame : (e.serveWorker w).bulkCount w.job = (e.workerTurn w).1.bulkCount w.job := rfl
  rw [hsame]
  rcases workerTurn_traffic e hready with ⟨inFlight, hjournal, _⟩ | ⟨answer, r, wall, hjournal, _⟩ |
    ⟨haside, _⟩
  · rw [bulkCount, hjournal]
    rfl
  · rw [bulkCount, hjournal]
    rfl
  · exact bulkCount_aside haside

theorem Move.passages {start e e' : Engine P R} (hmove : Move e e') (hregular : e.Regular)
    (hdesk : e.desk = start.desk) (h : Passages start e) : Passages start e' := by
  have hwf := hregular.reached.wellFormed
  intro k hk orders hassignment hsome
  cases hmove.happens hwf hregular.suited hk with
  | elsewhere same helse =>
    obtain ⟨calls, hcount, hpassage⟩ := h k same orders hassignment hsome
    exact ⟨calls, (bulkCount_aside helse.aside).trans hcount, hpassage.aside helse.aside⟩
  | @worker w same member own ready next =>
    subst next
    obtain ⟨calls, hcount, hpassage⟩ := h k same orders hassignment hsome
    have hjoining := hwf.isJoining same member own
    have hsame := serveWorker_bulkCount (e := e) ready
    rw [own] at hsame
    refine ⟨calls, hsame.trans hcount, ?_⟩
    -- Only a job at work on a chunk has workers, and of its engine nothing is said then.
    obtain ⟨number, a, stage, turn⟩ := k
    cases hpassage with
    | joining spent => exact .joining spent
    | arriving | calling | backingOff | pausing | crashed | refused | returned => cases hjoining
  | @turn j member ready moved next =>
    subst moved next
    obtain ⟨calls, hcount, hpassage⟩ := h j member orders hassignment hsome
    rw [← hdesk] at hpassage ⊢
    obtain ⟨more, hmore, hnext, _⟩ := jobTurn_counts ready hassignment hsome hpassage
    refine ⟨calls + more, ?_, hnext.aside (.nothing rfl)⟩
    change (e.jobTurn j).1.bulkCount j.number = _
    rw [hmore, hcount, Nat.add_assoc]

/-- **On every course, submissions know the number of their bulk calls.** -/
theorem Course.passages {start e : Engine P R} (hcourse : Course start e) (hregular : start.Regular)
    (h : Passages start start) : Passages start e := by
  have hall := hcourse.keeps
    (I := fun e₁ => e₁.Regular ∧ e₁.desk = start.desk ∧ Passages start e₁)
    (fun hmove hi => ⟨hmove.regular hi.1,
      (hmove.desk hi.1.reached.wellFormed).trans hi.2.1, hmove.passages hi.1 hi.2.1 hi.2.2⟩)
    ⟨hregular, rfl, h⟩
  exact hall.2.2

theorem AtRest.unsent {e : Engine P R} (hrest : e.AtRest)
    (assignments : List (Nat × Assignment P)) {j : Job P R}
    (hj : j ∈ (e.addJobs assignments).unturned.jobs) :
    (e.addJobs assignments).unturned.Unsent j.number := by
  obtain ⟨i, _, _, _, hnumber⟩ := hrest.exists_assignment .refl hj
  have hjournal : (e.addJobs assignments).unturned.journal = e.journal := by
    rw [addJobs_eq]
    rfl
  -- What has been exchanged so far was for jobs of lower numbers.
  intro x hx hjob
  by_contra hsingle
  have hexchange : x.event.isExchange = true :=
    Event.isExchange_of_isSingle (by simpa using hsingle)
  have hpast := hrest.past x (List.mem_filter.mpr ⟨hjournal ▸ hx, hexchange⟩)
  omega

theorem AtRest.passages {e : Engine P R} (hrest : e.AtRest)
    (assignments : List (Nat × Assignment P)) :
    Passages (e.addJobs assignments).unturned (e.addJobs assignments).unturned := by
  intro j hj orders _ _
  obtain ⟨due, hstage⟩ := hrest.arriving hj
  rw [hstage]
  exact ⟨0, rfl, .arriving (hrest.unsent assignments hj)⟩

end Engine

end OrderAdmission
