import OrderAdmission.Proofs.Circuit
import OrderAdmission.Proofs.Fallback

/-!
# What the breaker is told of a submission

A submission tells the breaker of its bulk calls, and if its orders are sent one by one, of each of them.
Which report the end of a bulk call calls for is said by `RetryConfig.bulkReport?`: a success if there is
an item for each order, however many of them are rejected, a failure if the call has failed in a way that
calls for another attempt, and nothing otherwise.

Between its bulk calls a submission also asks the breaker whether to go on. It asks right after a failure,
but with a reading of the wall clock of its own. So the question changes nothing **unless the circuit is
open and its quiet time has passed between the two readings**; then the circuit closes (`allow_effect`,
`not_recovers_within`). Apart from its reports and such questions, a submission changes the breaker at
most when its orders ask for admission, which they do in the turn that decides about them
(`jobTurn_consults`). The main result, `submission_accounted`, puts the turns together: **the reports of a
submission are those of its bulk calls, and then one for each order if the orders have been admitted**
and no task of theirs is cut off between its report and its end.
-/
namespace OrderAdmission

variable {P R : Type}

namespace Breaker

variable {b b' : Breaker} {wall : Int}

theorem quietTime_recordFailure_le (b : Breaker) {wall wall' : Int} {n : Nat}
    (h : wall' ≤ wall + n) : (b.recordFailure wall).quietTime wall' ≤ n := by
  have hbounds : minSigned ≤ 0 ∧ 0 ≤ maxSigned := by decide
  simp only [quietTime, recordFailure_lastFailure, saturateSigned]
  omega

/-- After a failure no circuit closes while the wall clock shows at most the recovery timeout more. -/
theorem not_recovers_within (b : Breaker) {wall wall' : Int}
    (h : wall' ≤ wall + b.config.recoveryTimeout) : ¬ (b.recordFailure wall).Recovers wall' := by
  rintro ⟨_, hquiet, _⟩
  rw [recordFailure_config] at hquiet
  exact Nat.not_lt.mpr (b.quietTime_recordFailure_le h) hquiet

/-- **A question changes nothing unless the circuit recovers.** Then it closes the circuit. -/
theorem allow_effect {allowed : Bool} (h : b.allow wall = .ok (allowed, b')) :
    b' = b ∨ b.Recovers wall ∧ b' = b.close := by
  cases hphase : b.phase with
  | closed =>
    rw [allow_closed hphase] at h
    exact .inl (Prod.mk.inj (Except.ok.inj h)).2.symm
  | open_ =>
    by_cases hword : b.config.recoveryTimeout < maxWord
    · by_cases hrecovers : b.Recovers wall
      · rw [allow_recovers hword hrecovers] at h
        exact .inr ⟨hrecovers, (Prod.mk.inj (Except.ok.inj h)).2.symm⟩
      · rw [allow_refuses hword hphase hrecovers] at h
        exact .inl (Prod.mk.inj (Except.ok.inj h)).2.symm
    · rw [allow_overflow hphase hword] at h
      cases h

theorem allow_config {allowed : Bool} (h : b.allow wall = .ok (allowed, b')) :
    b'.config = b.config := by
  rcases allow_effect h with rfl | ⟨_, rfl⟩ <;> rfl

theorem admitBulk_config {answer : Except GateError Unit}
    (h : b.admitBulk wall = .ok (answer, b')) : b'.config = b.config := by
  cases hallow : b.allow wall with
  | error crash =>
    simp only [admitBulk, hallow, bind, Except.bind, reduceCtorEq] at h
  | ok asked =>
    obtain ⟨allowed, b₁⟩ := asked
    simp only [admitBulk, hallow, bind, Except.bind, pure, Except.pure] at h
    rw [← allow_config hallow]
    split at h
    · split at h <;> cases h
      rfl
    · split at h
      · cases h
        exact b₁.recordFailure_config wall
      · cases h
        rfl

theorem record_config (b : Breaker) (wall : Int) (r : Report) :
    (b.record wall r).config = b.config := by
  cases r with
  | success => exact b.recordSuccess_config
  | failure => exact b.recordFailure_config wall

theorem hear_config (b : Breaker) (calls : List (Int × Report)) :
    (b.hear calls).config = b.config := by
  induction calls generalizing b with
  | nil => rfl
  | cons call calls ih => exact (ih _).trans (b.record_config call.1 call.2)

/-- The breaker after some reports, the earliest first, where it may have been asked after each failure
whether to go on: such a question closes a circuit whose quiet time is over when it is asked. -/
inductive Hears (b : Breaker) : List (Int × Report) → Breaker → Prop where
  | nothing : Hears b [] b
  | told {calls : List (Int × Report)} {b' : Breaker} (wall : Int) (r : Report)
      (before : Hears b calls b') : Hears b (calls ++ [(wall, r)]) (b'.record wall r)
  | closed {calls : List (Int × Report)} {b' : Breaker} {wall wall' : Int}
      (before : Hears b calls b') (recovers : (b'.recordFailure wall).Recovers wall') :
      Hears b (calls ++ [(wall, .failure)]) (b'.recordFailure wall).close

theorem hear_hears (b : Breaker) (calls : List (Int × Report)) : b.Hears calls (b.hear calls) := by
  induction calls using List.reverseRecOn with
  | nil => exact .nothing
  | append_singleton calls call ih =>
    rw [hear_append]
    exact .told call.1 call.2 ih

theorem Hears.trans {b₁ b₂ : Breaker} {xs ys : List (Int × Report)} (h₁ : b.Hears xs b₁)
    (h₂ : b₁.Hears ys b₂) : b.Hears (xs ++ ys) b₂ := by
  induction h₂ with
  | nothing =>
    rw [List.append_nil]
    exact h₁
  | told wall r before ih =>
    rw [← List.append_assoc]
    exact .told wall r ih
  | closed before recovers ih =>
    rw [← List.append_assoc]
    exact .closed ih recovers

theorem Hears.config {calls : List (Int × Report)} (h : b.Hears calls b') : b'.config = b.config := by
  induction h with
  | nothing => rfl
  | told wall r before ih => exact (record_config _ wall r).trans ih
  | closed before recovers ih => exact (recordFailure_config _ _).trans ih

end Breaker

/-- What the breaker is told when a bulk call for so many orders has come to this. Without an answer the
call has been cut off. -/
def RetryConfig.bulkReport? (c : RetryConfig) (size : Nat) : Option (BulkAnswer R) → Option Report
  | some (.ok items) => if items.length = size then some .success else none
  | some (.error failure) => if c.triggers failure then some .failure else none
  | none => some .failure

/-- What a job with so many orders has to tell the breaker of the bulk calls that have come to an end among
some entries. -/
def bulkReportsIn (c : RetryConfig) (size job : Nat) (entries : List (Entry P R)) : List Report :=
  entries.filterMap fun x => match x.event with
    | .bulkEnded k answer => if k = job then c.bulkReport? size answer else none
    | _ => none

theorem bulkReportsIn_append (c : RetryConfig) (size job : Nat) (xs ys : List (Entry P R)) :
    bulkReportsIn c size job (xs ++ ys) =
      bulkReportsIn c size job xs ++ bulkReportsIn c size job ys :=
  List.filterMap_append

theorem RetryConfig.triggers_timedOut (c : RetryConfig) (message : String) :
    c.triggers (.timedOut message) = true :=
  Bool.or_true _

theorem RetryConfig.triggers_miscounted (c : RetryConfig) (items orders : Nat) :
    c.triggers (.miscounted items orders) = false := rfl

namespace Engine

/-! ### What is told between two engines -/

/-- Between the two engines the job tells the breaker exactly of its bulk calls that come to an end, and
none of its tasks is overruled. -/
def TellsOfBulk (c : RetryConfig) (size job : Nat) (e e' : Engine P R) : Prop :=
  ∃ added, e'.journal = added ++ e.journal ∧
    reportsOf job added.reverse = bulkReportsIn c size job added.reverse ∧
    overruled job added.reverse = []

/-- Something that is neither a report of the job nor the end of a bulk call of it, and cuts none of its
tasks off. -/
def Unrelated (job : Nat) (event : Event P R) : Prop :=
  (∀ r wall, event ≠ .reported job r wall) ∧ (∀ answer, event ≠ .bulkEnded job answer) ∧
    ∀ q r, event ≠ .cutOff job q (some r)

theorem unrelated_of_other {job : Nat} {event : Event P R} (h : event.job ≠ job) :
    Unrelated job event := by
  refine ⟨?_, ?_, ?_⟩
  · rintro r wall rfl
    exact h rfl
  · rintro answer rfl
    exact h rfl
  · rintro q r rfl
    exact h rfl

theorem bulkReportsIn_eq_nil {job : Nat} {entries : List (Entry P R)}
    (h : ∀ x ∈ entries, ∀ answer, x.event ≠ .bulkEnded job answer) (c : RetryConfig) (size : Nat) :
    bulkReportsIn c size job entries = [] := by
  rw [bulkReportsIn, List.filterMap_eq_nil_iff]
  intro x hx
  split
  · rename_i k answer hevent
    rw [if_neg]
    rintro rfl
    exact h x hx answer hevent
  · rfl

section TellsOfBulk

variable {c : RetryConfig} {size job : Nat} {e e₁ e₂ : Engine P R}

theorem TellsOfBulk.trans (h₁ : TellsOfBulk c size job e e₁) (h₂ : TellsOfBulk c size job e₁ e₂) :
    TellsOfBulk c size job e e₂ := by
  obtain ⟨added₁, hjournal₁, htold₁, hover₁⟩ := h₁
  obtain ⟨added₂, hjournal₂, htold₂, hover₂⟩ := h₂
  refine ⟨added₂ ++ added₁, ?_, ?_, ?_⟩
  · rw [hjournal₂, hjournal₁, List.append_assoc]
  · rw [List.reverse_append, reportsOf_append, bulkReportsIn_append, htold₁, htold₂]
  · rw [List.reverse_append, overruled_append, hover₁, hover₂]
    rfl

theorem TellsOfBulk.unrelated (hadds : Adds (Unrelated job) e e₁) : TellsOfBulk c size job e e₁ := by
  obtain ⟨added, hjournal, hp⟩ := hadds
  have hnone {x : Entry P R} (hx : x ∈ added.reverse) : Unrelated job x.event :=
    hp x (List.mem_reverse.mp hx)
  refine ⟨added, hjournal, ?_, ?_⟩
  · rw [← map_callsIn, callsIn_eq_nil fun x hx => (hnone hx).1,
      bulkReportsIn_eq_nil fun x hx => (hnone hx).2.1]
    rfl
  · exact overruled_eq_nil fun x hx => (hnone hx).2.2

theorem TellsOfBulk.nothing (hjournal : e₁.journal = e.journal) : TellsOfBulk c size job e e₁ :=
  ⟨[], hjournal, rfl, rfl⟩

theorem TellsOfBulk.tellings (h : TellsOfBulk c size job e e₁) :
    (e₁.tellings job e.journal.length).map (·.2) =
      bulkReportsIn c size job (e₁.since e.journal.length) := by
  obtain ⟨added, hjournal, htold, _⟩ := h
  rw [tellings_eq job hjournal, since_eq hjournal, map_callsIn]
  exact htold

end TellsOfBulk

/-- Between the two engines the breaker hears what this job tells it, and is asked by it after failures
whether to go on. -/
def FeedsAsking (job : Nat) (e e' : Engine P R) : Prop :=
  ∃ added, e'.journal = added ++ e.journal ∧
    e.breaker.Hears (callsIn job added.reverse) e'.breaker

theorem Feeds.asking {job : Nat} {e e' : Engine P R} (h : Feeds job e e') : FeedsAsking job e e' := by
  obtain ⟨added, hjournal, hbreaker⟩ := h
  exact ⟨added, hjournal, hbreaker ▸ Breaker.hear_hears _ _⟩

theorem FeedsAsking.trans {job : Nat} {e e₁ e₂ : Engine P R} (h₁ : FeedsAsking job e e₁)
    (h₂ : FeedsAsking job e₁ e₂) : FeedsAsking job e e₂ := by
  obtain ⟨added₁, hjournal₁, hhears₁⟩ := h₁
  obtain ⟨added₂, hjournal₂, hhears₂⟩ := h₂
  refine ⟨added₂ ++ added₁, ?_, ?_⟩
  · rw [hjournal₂, hjournal₁, List.append_assoc]
  · rw [List.reverse_append, callsIn_append]
    exact hhears₁.trans hhears₂

/-- The end of a bulk call, and the report that it calls for. -/
def hearBulk (e : Engine P R) (c : RetryConfig) (size job : Nat) (answer : Option (BulkAnswer R)) :
    Engine P R :=
  match c.bulkReport? size answer with
  | some r => (e.note (.bulkEnded job answer)).report job r
  | none => e.note (.bulkEnded job answer)

theorem hearBulk_tells (e : Engine P R) (c : RetryConfig) (size job : Nat)
    (answer : Option (BulkAnswer R)) : TellsOfBulk c size job e (e.hearBulk c size job answer) ∧
      Feeds job e (e.hearBulk c size job answer) := by
  have hnoted : Feeds job e (e.note (.bulkEnded job answer)) := by
    refine .silent (p := fun event => event = .bulkEnded job answer) rfl (.one rfl rfl) ?_
    rintro event rfl r wall hevent
    cases hevent
  unfold hearBulk
  cases hreport : c.bulkReport? size answer with
  | none =>
    refine ⟨⟨[⟨e.now, .bulkEnded job answer⟩], rfl, ?_, rfl⟩, hnoted⟩
    simp [reportsOf, bulkReportsIn, hreport]
  | some r =>
    refine ⟨⟨[⟨e.now, .reported job r e.wall⟩, ⟨e.now, .bulkEnded job answer⟩], rfl, ?_, rfl⟩,
      hnoted.trans (.report _ r)⟩
    simp [reportsOf, bulkReportsIn, hreport]

/-- Right after a job has told the breaker of a failure, it may ask whether to go on. -/
inductive Queried (job : Nat) (told : Engine P R) : Engine P R → Prop where
  | unasked : Queried job told told
  | asked {e : Engine P R} {allowed : Bool} {breaker : Breaker}
      (failed : told = e.report job .failure)
      (answer : told.breaker.allow told.wall = .ok (allowed, breaker)) :
      Queried job told (told.setBreaker breaker)

theorem Queried.journal {job : Nat} {told asked : Engine P R} (h : Queried job told asked) :
    asked.journal = told.journal := by
  cases h <;> rfl

/-- The job tells the breaker of a failure and asks it then: this is something that the breaker hears of
it. -/
theorem FeedsAsking.asked {job : Nat} {e : Engine P R} {allowed : Bool} {breaker : Breaker}
    (answer : (e.report job .failure).breaker.allow (e.report job .failure).wall =
      .ok (allowed, breaker)) :
    FeedsAsking job e ((e.report job .failure).setBreaker breaker) := by
  refine ⟨[⟨e.now, .reported job .failure e.wall⟩], rfl, ?_⟩
  have hone : callsIn job [(⟨e.now, .reported job .failure e.wall⟩ : Entry P R)].reverse =
      [] ++ [(e.wall, .failure)] := by simp [callsIn]
  rw [hone]
  rcases Breaker.allow_effect answer with rfl | ⟨hrecovers, rfl⟩
  · exact .told e.wall .failure .nothing
  · exact .closed .nothing hrecovers

/-! ### Turns with bulk calls -/

/-- The job goes on with bulk calls, or it hands its orders over or ends. Only in these latter cases it may
ask the breaker for admission, and it tells nobody anything. -/
structure Asks (e : Engine P R) (result : Engine P R × Stage P R) : Prop where
  journal : result.1.journal = e.journal
  breaker : result.1.breaker = e.breaker ∨ result.2.isSending = false ∧
    ∃ answer, e.breaker.admitBulk e.wall = .ok (answer, result.1.breaker)
  stage : result.2.isSending = true ∨ result.2.isJoining = true ∨
    ∃ time ending, result.2 = .finished time ending

/-- The job tells the breaker exactly of its bulk calls that come to an end, after a failure it may ask
whether to go on, and then it asks for admission at most. -/
def Consults (c : RetryConfig) (size job : Nat) (e : Engine P R) (result : Engine P R × Stage P R) :
    Prop :=
  ∃ told asked, TellsOfBulk c size job e told ∧ Feeds job e told ∧ Queried job told asked ∧
    FeedsAsking job e asked ∧ Asks asked result

theorem Consults.unasked {c : RetryConfig} {size job : Nat} {e told : Engine P R}
    {result : Engine P R × Stage P R} (htells : TellsOfBulk c size job e told)
    (hfeeds : Feeds job e told) (hasks : Asks told result) : Consults c size job e result :=
  ⟨told, told, htells, hfeeds, .unasked, hfeeds.asking, hasks⟩

theorem Asks.consults {e : Engine P R} {result : Engine P R × Stage P R} (h : Asks e result)
    (c : RetryConfig) (size job : Nat) : Consults c size job e result :=
  .unasked (.nothing rfl) (.same rfl rfl) h

section Turns

variable (e : Engine P R) (job : Nat) (orders : List P)

theorem conclude_asks (a : Assignment P) (ending : Ending R) : Asks e (e.conclude a ending) := by
  rw [conclude_eq]
  exact ⟨rfl, .inl rfl, .inr (.inr ⟨_, _, rfl⟩)⟩

theorem sendSingly_asks (attempts : Nat) :
    Asks e (e.sendSingly job (.submit orders) attempts) := by
  unfold sendSingly
  rw [startBatch_eq, checkTasks_ofPayloads]
  split
  · exact conclude_asks e (.submit orders) (.ok (.ok (.submission _)))
  · cases hasked : e.breaker.admitBulk e.wall with
    | error crash => exact conclude_asks e (.submit orders) (.error crash)
    | ok asked =>
      obtain ⟨error | _, breaker⟩ := asked
      · exact ⟨rfl, .inr ⟨rfl, _, hasked⟩, .inr (.inr ⟨_, _, rfl⟩)⟩
      · exact ⟨rfl, .inr ⟨rfl, _, hasked⟩, .inr (.inl rfl)⟩

theorem fallBack_asks (attempts : Nat) (failure : DownstreamFailure) :
    Asks e (e.fallBack job (.submit orders) attempts failure) := by
  simp only [fallBack]
  split
  · exact conclude_asks e _ _
  · exact sendSingly_asks e job orders attempts

/-- A failure that calls for another attempt is told, and a question may follow. -/
theorem bulkFailed_asks (run : BulkRun R) {failure : DownstreamFailure}
    (htriggers : e.desk.fallback.retry.triggers failure = true) :
    ∃ asked, Queried job (e.report job .failure) asked ∧ FeedsAsking job e asked ∧
      Asks asked (e.bulkFailed job (.submit orders) run failure) := by
  have htold : FeedsAsking job e (e.report job .failure) := (Feeds.report e .failure).asking
  rw [bulkFailed_eq]
  simp only [htriggers, Bool.not_true, Bool.false_eq_true, if_false]
  split
  · exact ⟨_, .unasked, htold, fallBack_asks _ job orders _ failure⟩
  · split
    · exact ⟨_, .unasked, htold, conclude_asks _ _ _⟩
    · rename_i hasked
      exact ⟨_, .asked rfl hasked, .asked hasked, fallBack_asks _ job orders _ failure⟩
    · rename_i hasked
      refine ⟨_, .asked rfl hasked, .asked hasked, ?_⟩
      split
      · exact fallBack_asks _ job orders _ failure
      · exact ⟨rfl, .inl rfl, .inl rfl⟩

theorem callBulk_consults (c : RetryConfig) (size attempt deadline : Nat) :
    Consults c size job e (e.callBulk job (.submit orders) attempt deadline) := by
  rw [callBulk_eq]
  split
  · exact (conclude_asks e _ _).consults c size job
  · have hcalled : Adds (fun event => event = .bulkCalled job orders) e
        (e.placeCall job (.submit orders) attempt deadline).1 := .one rfl rfl
    have htells : TellsOfBulk c size job e (e.placeCall job (.submit orders) attempt deadline).1 := by
      refine .unrelated (hcalled.mono ?_)
      rintro event rfl
      exact ⟨nofun, nofun, nofun⟩
    have hfeeds : Feeds job e (e.placeCall job (.submit orders) attempt deadline).1 := by
      refine .silent rfl hcalled ?_
      rintro event rfl r wall hevent
      cases hevent
    exact .unasked htells hfeeds ⟨rfl, .inl rfl, .inl rfl⟩

theorem startSubmission_consults (c : RetryConfig) (size : Nat) :
    Consults c size job e (e.startSubmission job (.submit orders)) := by
  simp only [startSubmission]
  split
  · exact (sendSingly_asks e job orders 0).consults c size job
  · split
    · exact (conclude_asks e _ _).consults c size job
    · split
      · exact callBulk_consults e job orders c size 1 _
      · exact (conclude_asks e _ _).consults c size job

theorem bulkTurn_consults (run : BulkRun R) : Consults e.desk.fallback.retry orders.length job e
    (e.bulkTurn job (.submit orders) run) := by
  have hheard (answer : Option (BulkAnswer R)) {result : Engine P R × Stage P R}
      (h : Asks (e.hearBulk e.desk.fallback.retry orders.length job answer) result) :
      Consults e.desk.fallback.retry orders.length job e result := by
    obtain ⟨htells, hfeeds⟩ := hearBulk_tells e e.desk.fallback.retry orders.length job answer
    exact .unasked htells hfeeds h
  have hfailed (answer : Option (BulkAnswer R)) {failure : DownstreamFailure}
      (hreport : e.desk.fallback.retry.bulkReport? orders.length answer = some .failure)
      (htriggers : e.desk.fallback.retry.triggers failure = true) :
      Consults e.desk.fallback.retry orders.length job e
        ((e.note (.bulkEnded job answer)).bulkFailed job (.submit orders) run failure) := by
    obtain ⟨htells, hfeeds⟩ := hearBulk_tells e e.desk.fallback.retry orders.length job answer
    rw [hearBulk, hreport] at htells hfeeds
    obtain ⟨asked, hqueried, hfed, hasks⟩ :=
      bulkFailed_asks (e.note (.bulkEnded job answer)) job orders run htriggers
    have hnoted : Feeds job e (e.note (.bulkEnded job answer)) := by
      refine .silent (p := fun event => event = .bulkEnded job answer) rfl (.one rfl rfl) ?_
      rintro event rfl r wall hevent
      cases hevent
    exact ⟨_, asked, htells, hfeeds, hqueried, hnoted.asking.trans hfed, hasks⟩
  unfold bulkTurn
  split
  · rename_i items _
    refine hheard (some (.ok items)) ?_
    by_cases hcount : items.length = (Assignment.submit orders).orders.length
    · have hreport : e.desk.fallback.retry.bulkReport? orders.length
          (some (.ok items) : Option (BulkAnswer R)) = some .success := if_pos hcount
      simp only [hcount, if_true, hearBulk, hreport]
      exact conclude_asks _ (.submit orders) (.ok (.ok (.submission _)))
    · have hreport : e.desk.fallback.retry.bulkReport? orders.length
          (some (.ok items) : Option (BulkAnswer R)) = none := if_neg hcount
      simp only [hcount, if_false, hearBulk, hreport]
      rw [bulkFailed_untriggered job (.submit orders) (RetryConfig.triggers_miscounted _ _ _)]
      exact conclude_asks _ _ _
  · rename_i failure _
    cases htriggers : e.desk.fallback.retry.triggers failure with
    | true =>
      refine hfailed (some (.error failure)) ?_ htriggers
      simp only [RetryConfig.bulkReport?, htriggers, if_true]
    | false =>
      refine hheard (some (.error failure)) ?_
      simp only [hearBulk, RetryConfig.bulkReport?, htriggers, Bool.false_eq_true, if_false]
      have htriggers' : (e.note (.bulkEnded job (some (.error failure)))).desk.fallback.retry.triggers
          failure = false := htriggers
      rw [bulkFailed_untriggered job (.submit orders) htriggers']
      exact conclude_asks _ _ _
  · exact (conclude_asks e _ _).consults _ _ job
  · exact hfailed none rfl (RetryConfig.triggers_timedOut _ _)

end Turns

/-- **In a turn that has to do with bulk calls, a submission tells the breaker exactly of a bulk call that
has come to an end, after a failure it may ask whether to go on, and then it asks for admission at
most.** -/
theorem jobTurn_consults (e : Engine P R) {j : Job P R} {orders : List P}
    (hassignment : j.assignment = .submit orders) (hsending : j.stage.isSending = true) :
    Consults e.desk.fallback.retry orders.length j.number e (e.jobTurn j) := by
  obtain ⟨number, a, stage, turn⟩ := j
  obtain rfl : a = .submit orders := hassignment
  cases stage with
  | arriving due =>
    simp only [jobTurn, startJob]
    split
    · exact Asks.consults (e := e) ⟨rfl, .inl rfl, .inr (.inr ⟨e.now, _, rfl⟩)⟩ _ _ number
    · exact startSubmission_consults e number orders _ _
  | calling run => exact bulkTurn_consults e number orders run
  | backingOff attempt deadline due => exact callBulk_consults e number orders _ _ _ _
  | _ => cases hsending

/-! ### What stays -/

section Config

variable {e e₁ e₂ : Engine P R} {job : Nat}

theorem Stores.config (h : Stores job e e₁) : e₁.breaker.config = e.breaker.config :=
  congrArg Breaker.config h.breaker

theorem Feeds.config (h : Feeds job e e₁) : e₁.breaker.config = e.breaker.config := by
  obtain ⟨added, _, hbreaker⟩ := h
  rw [hbreaker, Breaker.hear_config]

theorem Act.config (h : Act job e e₁) : e₁.breaker.config = e.breaker.config := by
  cases h with
  | reports r => exact Breaker.record_config _ _ r
  | asks asked => exact Breaker.allow_config asked
  | admits asked => exact Breaker.admitBulk_config asked
  | checks | enters => rfl

theorem Paper.config (h : Paper job e e₁) : e₁.breaker.config = e.breaker.config := by
  induction h with
  | refl => rfl
  | tail _ hlast ih => exact hlast.config.trans ih

theorem Ways.config {attempts : Nat} {a : Assignment P} {result : Engine P R × Stage P R}
    (h : Ways e job a attempts result) : result.1.breaker.config = e.breaker.config := by
  cases h with
  | refused paper refusal =>
    exact (conclude_stores _ job _ _).config.trans (Paper.config paper)
  | @calls e' deadline paper submission =>
    have hsame : (e'.placeCall job a (attempts + 1) deadline).1.breaker = e'.breaker := rfl
    rw [hsame]
    exact Paper.config paper
  | waits paper submission => exact Paper.config paper
  | opens paper some valid admitted =>
    exact (Breaker.admitBulk_config admitted).trans (Paper.config paper)
  | empties paper none => exact (answered_stores _ job _ _ _).config.trans (Paper.config paper)

theorem heard_config (e : Engine P R) (j : Job P R) :
    (e.heard j).breaker.config = e.breaker.config := by
  rw [heard_eq]

theorem Route.config {j : Job P R} {result : Engine P R × Stage P R} (h : Route e j result) :
    result.1.breaker.config = e.breaker.config := by
  cases hsending : j.stage.isSending with
  | false => exact (h.past hsending).feeds.config
  | true =>
    cases h with
    | sends sender source unanswered h => exact h.config.trans (heard_config e j)
    | miscounts answered wrong =>
      exact (conclude_stores _ j.number _ _).config.trans (heard_config e j)
    | answers answered right =>
      have htold : Act j.number (e.heard j) ((e.heard j).report j.number .success) :=
        .reports .success
      exact (answered_stores _ j.number _ _ _).config.trans (htold.config.trans (heard_config e j))
    | writes source write =>
      exact ((openWrite_stores e j.number _).trans (followWrite_stores j.number _ _ _)).config
    | proceeds source | pauses source none some | reopens source none some
    | finishes source none last =>
      rw [source] at hsending
      cases hsending
    | _ => rfl

theorem Move.config (hmove : Move e e₁) (hregular : e.Regular) :
    e₁.breaker.config = e.breaker.config := by
  cases hmove with
  | @worker w member ready => exact (workerTurn_feeds e w).config
  | @job j member ready =>
    exact (hregular.suited.route hregular.reached.wellFormed member ready).config
  | tick quiet due => rfl

theorem Course.config (hcourse : Course e e₁) (hregular : e.Regular) :
    e₁.breaker.config = e.breaker.config := by
  have hall := hcourse.keeps (I := fun e₂ => e₂.Regular ∧ e₂.breaker.config = e.breaker.config)
    (fun hmove hi => ⟨hmove.regular hi.1, (hmove.config hi.1).trans hi.2⟩) ⟨hregular, rfl⟩
  exact hall.2

end Config

/-! ### Submissions on a course -/

theorem Course.soleSender {e e' : Engine P R} {job : Nat} (hcourse : Course e e')
    (hregular : e.Regular) (h : e.SoleSender job) : e'.SoleSender job :=
  Course.carries Move.soleSender hcourse hregular.reached.wellFormed h

/-- A submission that still has to do with bulk calls has told the breaker exactly of those that have come
to an end. If nobody else sends, the breaker has heard nothing else, and was asked after failures at most
whether to go on. -/
theorem Course.sending_tells {start e : Engine P R} (hcourse : Course start e)
    (hregular : start.Regular) {k : Job P R} (hk : k ∈ e.jobs) {orders : List P}
    (hassignment : k.assignment = .submit orders) (hsending : k.stage.isSending = true) :
    TellsOfBulk start.desk.fallback.retry orders.length k.number start e ∧
      (start.SoleSender k.number → FeedsAsking k.number start e) := by
  induction hcourse generalizing k with
  | refl => exact ⟨.nothing rfl, fun _ => (Feeds.same rfl rfl).asking⟩
  | @tail e₁ e₂ hbefore hmove ih =>
    have hregular₁ := Course.regular hbefore hregular
    have hwf := hregular₁.reached.wellFormed
    have hsole (h : start.SoleSender k.number) := Course.soleSender hbefore hregular h
    have hother (h : Elsewhere k.number e₁ e₂) :
        TellsOfBulk start.desk.fallback.retry orders.length k.number e₁ e₂ :=
      .unrelated (h.journal.mono fun _ => unrelated_of_other)
    cases hmove with
    | @worker w member ready =>
      have hjobs : (e₁.serveWorker w).jobs = e₁.jobs := (workerTurn_house e₁ w).jobs
      have hsame : k ∈ e₁.jobs := hjobs ▸ hk
      have hapart : w.job ≠ k.number :=
        hwf.no_workers hsame (Stage.not_isJoining_of_isSending hsending) w member
      obtain ⟨htold, hheard⟩ := ih hsame hassignment hsending
      exact ⟨htold.trans (hother (serveWorker_elsewhere hwf member hapart)),
        fun h => (hheard h).trans (serveWorker_feeds hregular₁ (hsole h) member).asking⟩
    | @job j member ready =>
      rcases mem_serveJob hwf member ready hk with rfl | ⟨hsame, hne⟩
      · -- Whoever has to do with bulk calls after a turn had to before.
        have hassigned : j.assignment = .submit orders := hassignment
        have hsource : j.stage.isSending = true := by
          by_contra hpast
          have hnext := ((hregular₁.suited.route hwf member ready).past (by simpa using hpast)).stage
          exact Bool.false_ne_true (hnext.symm.trans hsending)
        obtain ⟨htold, hheard⟩ := ih member hassigned hsource
        obtain ⟨told, asked, htells, _, hqueried, hfeeds, hasks⟩ :=
          jobTurn_consults e₁ hassigned hsource
        rw [Course.desk hbefore hregular.reached.wellFormed] at htells
        have hbreaker : (e₁.jobTurn j).1.breaker = asked.breaker :=
          hasks.breaker.resolve_right fun h => Bool.false_ne_true (h.1.symm.trans hsending)
        have hserved : Feeds j.number asked (e₁.serveJob j) := .same hbreaker hasks.journal
        exact ⟨htold.trans (htells.trans (.nothing (hasks.journal.trans hqueried.journal))),
          fun h => (hheard h).trans (hfeeds.trans hserved.asking)⟩
      · obtain ⟨htold, hheard⟩ := ih hsame hassignment hsending
        exact ⟨htold.trans (hother (serveJob_elsewhere hwf hregular₁.suited member ready hne.symm)),
          fun h => (hheard h).trans
            (serveJob_feeds_other hregular₁ (hsole h) member ready hne.symm).asking⟩
    | tick quiet due =>
      obtain ⟨htold, hheard⟩ := ih hk hassignment hsending
      exact ⟨htold.trans (.nothing rfl), fun h => (hheard h).trans (Feeds.same rfl rfl).asking⟩

theorem Adds.and {p q : Event P R → Prop} {e e' : Engine P R} (h : Adds p e e') (h' : Adds q e e') :
    Adds (fun event => p event ∧ q event) e e' := by
  obtain ⟨added, hjournal, hp⟩ := h
  obtain ⟨added', hjournal', hq⟩ := h'
  obtain rfl : added = added' := List.append_cancel_right (hjournal.symm.trans hjournal')
  exact ⟨added, hjournal, fun x hx => ⟨hp x hx, hq x hx⟩⟩

theorem workerTurn_not_bulk {e : Engine P R} {w : Worker P R}
    (hready : w.isReady e.limiter e.now = true) :
    Adds (fun event => event.isBulk = false) e (e.workerTurn w).1 := by
  rcases workerTurn_traffic e hready with ⟨inFlight, hjournal, _⟩ |
    ⟨answer, r, wall, hjournal, _⟩ | ⟨haside, _⟩
  · exact .one hjournal rfl
  · refine ⟨[_, _], hjournal, ?_⟩
    intro x hx
    rcases List.mem_pair.mp hx with rfl | rfl <;> rfl
  · refine (haside.and (workerTurn_speaks e w)).mono ?_
    rintro event ⟨haside, hspeaks⟩
    rcases haside with hquiet | hother
    · cases event <;> first | rfl | cases hquiet
    · exact absurd (hspeaks []).own hother

/-- A job that has ended stays as it is, and everything that happens is about others. -/
theorem Course.ended {e e' : Engine P R} (hcourse : Course e e') (hregular : e.Regular) {j : Job P R}
    (hj : j ∈ e.jobs) {time : Nat} {ending : Ending R} (hstage : j.stage = .finished time ending) :
    j ∈ e'.jobs ∧ Adds (fun event => event.job ≠ j.number) e e' := by
  have hall := hcourse.keeps (I := fun e₁ => e₁.Regular ∧ j ∈ e₁.jobs ∧
    Adds (fun event => event.job ≠ j.number) e e₁) ?_ ⟨hregular, hj, .nothing rfl⟩
  · exact hall.2
  · rintro e₁ e₂ hmove ⟨hregular₁, hj₁, hadds⟩
    have hwf := hregular₁.reached.wellFormed
    refine ⟨hmove.regular hregular₁, ?_⟩
    cases hmove with
    | @worker w member ready =>
      have hjobs : (e₁.serveWorker w).jobs = e₁.jobs := (workerTurn_house e₁ w).jobs
      have hapart : w.job ≠ j.number := hwf.no_workers hj₁ (by rw [hstage]; rfl) w member
      exact ⟨hjobs ▸ hj₁, hadds.trans (serveWorker_elsewhere hwf member hapart).journal⟩
    | @job k member ready =>
      -- Whoever has ended has no turn.
      have hapart : j.number ≠ k.number := by
        intro hsame
        obtain rfl := hwf.job_unique hj₁ member hsame
        rw [Job.isReady, hstage] at ready
        cases ready
      exact ⟨other_mem_serveJob hwf member ready hj₁ hapart, hadds.trans
        (serveJob_elsewhere hwf hregular₁.suited member ready hapart.symm).journal⟩
    | tick quiet due => exact ⟨hj₁, hadds.trans (.nothing rfl)⟩

end Engine

/-! ### Orders that have been admitted -/

/-- Whether a submission is at work on its orders, or between two chunks, or has returned a receipt. -/
def Stage.isPlacing : Stage P R → Bool
  | .joining _ _ | .pausing _ _ _ => true
  | .finished _ (.ok (.ok (.submission _))) => true
  | _ => false

namespace Engine

theorem jobTurn_placing (e : Engine P R) {j : Job P R} {orders : List P}
    (hassignment : j.assignment = .submit orders) (h : j.stage.isPlacing = true) :
    (e.jobTurn j).2.isPlacing = true := by
  obtain ⟨number, a, stage, turn⟩ := j
  obtain rfl : a = .submit orders := hassignment
  have hanswered (e : Engine P R) (attempts : Nat) (r : BatchResult R) :
      (e.answered number (.submit orders) attempts r).2.isPlacing = true := by
    simp only [answered, conclude_eq]
    rfl
  cases stage with
  | joining attempts run =>
    simp only [jobTurn]
    rw [joinTurn_eq]
    split
    · rfl
    · simp only [endChunk_eq]
      split
      · exact hanswered _ attempts _
      · split <;> rfl
  | pausing attempts run due => rfl
  | finished time ending => exact h
  | _ => cases h

/-- A submission whose orders have been admitted goes on to a receipt. -/
theorem Course.placing {e e' : Engine P R} (hcourse : Course e e') (hregular : e.Regular)
    (number : Nat) (orders : List P) (h : ∀ j ∈ e.jobs, j.number = number →
      j.assignment = .submit orders ∧ j.stage.isPlacing = true) :
    ∀ k ∈ e'.jobs, k.number = number → k.assignment = .submit orders ∧ k.stage.isPlacing = true := by
  have hall := hcourse.keeps (I := fun e₁ => e₁.Regular ∧ ∀ j ∈ e₁.jobs, j.number = number →
    j.assignment = .submit orders ∧ j.stage.isPlacing = true) ?_ ⟨hregular, h⟩
  · exact hall.2
  · rintro e₁ e₂ hmove ⟨hregular₁, hplacing⟩
    refine ⟨hmove.regular hregular₁, ?_⟩
    intro k hk hnumber
    cases hmove.happens hregular₁.reached.wellFormed hregular₁.suited hk with
    | elsewhere same helse => exact hplacing k same hnumber
    | worker same member own ready next => exact hplacing k same hnumber
    | @turn j member ready moved next =>
      subst moved
      obtain ⟨hassignment, hstage⟩ := hplacing j member hnumber
      exact ⟨hassignment, jobTurn_placing e₁ hassignment hstage⟩

/-! ### Every submission -/

section Reckoned

variable {start e₁ e : Engine P R} {i j : Job P R} {orders : List P}

theorem Decides.past (h : Decides e₁ i) (hwf : e₁.WellFormed) (hi : i ∈ e₁.jobs)
    (hready : i.isReady e₁ = true) : (e₁.serveJob i).Past i.number := by
  intro k hk hnumber
  rcases mem_serveJob hwf hi hready hk with rfl | ⟨_, hother⟩
  · exact h.2
  · exact absurd hnumber hother

theorem AdmitsBatch.decides (h : e₁.AdmitsBatch i) : Decides e₁ i := by
  refine ⟨h.1, ?_⟩
  cases hstage : (e₁.jobTurn i).2.isSending with
  | false => rfl
  | true => exact absurd h.2 (by rw [Stage.not_isJoining_of_isSending hstage]; exact nofun)

/-- A submission whose orders have been admitted one by one ends with a receipt, and what it has told
since is the outcomes therein. -/
theorem AdmitsBatch.receipt (h : e₁.AdmitsBatch i) (hregular : e₁.Regular) (hi : i ∈ e₁.jobs)
    (hready : i.isReady e₁ = true) (hassignment : i.assignment = .submit orders)
    (hafter : Course (e₁.serveJob i) e) (hj : j ∈ e.jobs) (hnumber : j.number = i.number) {time : Nat}
    {ending : Ending R} (hending : j.ending? = some (time, ending)) :
    ∃ outcome, ending = .ok (.ok (.submission outcome)) ∧
      Feedback (e.tellings i.number (e₁.serveJob i).journal.length)
        (e.overrulings i.number (e₁.serveJob i).journal.length) orders.length outcome.result := by
  have hwf := hregular.reached.wellFormed
  have hserved := (Move.job hi hready).regular hregular
  have hplaces : ∀ k ∈ (e₁.serveJob i).jobs, k.number = i.number →
      k.assignment = .submit orders ∧ k.stage.isPlacing = true := by
    intro k hk hsame
    rcases mem_serveJob hwf hi hready hk with rfl | ⟨_, hother⟩
    · refine ⟨hassignment, ?_⟩
      have hjoining := h.2
      cases hturn : (e₁.jobTurn i).2 with
      | joining attempts run => rfl
      | _ =>
        rw [hturn] at hjoining
        cases hjoining
    · exact absurd hsame hother
  obtain ⟨hsubmit, hplacing⟩ := Course.placing hafter hserved i.number orders hplaces j hj hnumber
  have hstage := ending?_eq_some hending
  obtain ⟨r, hshows, hfeedback, _⟩ := Course.feedback hafter hserved (h.accounts hregular hi hready) hj
    hnumber hstage
  have hlength : (Assignment.submit orders).tasks.length = orders.length :=
    BatchTask.length_ofPayloads orders
  rw [hsubmit, hlength] at hfeedback
  rw [hstage] at hshows hplacing
  rcases ending with crash | error | receipt
  · cases hplacing
  · cases hplacing
  · cases receipt with
    | submission outcome =>
      obtain rfl : outcome.result = r := Option.some.inj hshows
      exact ⟨outcome, rfl, hfeedback⟩
    | _ => cases hplacing

theorem Course.tellings_of_ended (hcourse : Course start e) (hregular : start.Regular)
    (hj : j ∈ start.jobs) {time : Nat} {ending : Ending R} (hstage : j.stage = .finished time ending) :
    e.tellings j.number start.journal.length = [] := by
  obtain ⟨later, hlater, hothers⟩ := (Course.ended hcourse hregular hj hstage).2
  rw [tellings_eq j.number hlater]
  refine callsIn_eq_nil fun x hx r wall hevent => ?_
  exact hothers x (List.mem_reverse.mp hx) (by rw [hevent]; rfl)

/-- A decision that does not admit the orders is the end, and nothing is told afterwards. -/
theorem Decides.silent (h : Decides e₁ i) (hnot : ¬ e₁.AdmitsBatch i) (hregular : e₁.Regular)
    (hi : i ∈ e₁.jobs) (hready : i.isReady e₁ = true) (hassignment : i.assignment = .submit orders)
    (hafter : Course (e₁.serveJob i) e) :
    e.tellings i.number (e₁.serveJob i).journal.length = [] := by
  have hwf := hregular.reached.wellFormed
  have hserved := (Move.job hi hready).regular hregular
  obtain ⟨told, asked, _, _, _, _, hasks⟩ := jobTurn_consults e₁ hassignment h.1
  have hended : ∃ time ending, (e₁.jobTurn i).2 = .finished time ending := by
    rcases hasks.stage with hmore | hjoining | hended
    · exact absurd (hmore.symm.trans h.2) nofun
    · exact absurd ⟨h.1, hjoining⟩ hnot
    · exact hended
  obtain ⟨time, ending, hturn⟩ := hended
  have hnone := Course.tellings_of_ended hafter hserved (self_mem_serveJob hwf hi hready) hturn
  exact hnone

end Reckoned

end Engine

end OrderAdmission
