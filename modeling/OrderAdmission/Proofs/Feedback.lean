import OrderAdmission.Proofs.Outcomes
import OrderAdmission.Proofs.Tallies

/-!
# What the breaker is told of a batch

Of every task of a batch that it has admitted, the breaker is told how it ended: of a success that it
is one, and of a failure that it is one, whether the task failed by itself, gave up waiting for a
permit, was cut off or broke off. It is told once, unless the task is cut off between its report and
its end; such a task has reported an outcome of its own before (`outcomes_reported_beside_overruled`).

If nobody else sends anything, these reports are all that the breaker hears. It is then the breaker as
it was when it admitted the batch, after these reports one after another.
-/
namespace OrderAdmission

variable {P R : Type}

/-- The breaker after some reports, the earliest first, each with a reading of the wall clock. -/
def Breaker.hear (b : Breaker) (calls : List (Int × Report)) : Breaker :=
  calls.foldl (fun b call => b.record call.1 call.2) b

theorem Breaker.hear_append (b : Breaker) (xs ys : List (Int × Report)) :
    b.hear (xs ++ ys) = (b.hear xs).hear ys :=
  List.foldl_append

/-- The reports of a job among some entries, with the readings of the wall clock. -/
def callsIn (job : Nat) (entries : List (Entry P R)) : List (Int × Report) :=
  entries.filterMap fun x => match x.event with
    | .reported k r wall => if k = job then some (wall, r) else none
    | _ => none

theorem callsIn_append (job : Nat) (xs ys : List (Entry P R)) :
    callsIn job (xs ++ ys) = callsIn job xs ++ callsIn job ys :=
  List.filterMap_append

theorem callsIn_eq_nil {job : Nat} {entries : List (Entry P R)}
    (h : ∀ x ∈ entries, ∀ r wall, x.event ≠ .reported job r wall) : callsIn job entries = [] := by
  rw [callsIn, List.filterMap_eq_nil_iff]
  intro x hx
  split
  · rename_i k r wall hevent
    rw [if_neg]
    rintro rfl
    exact h x hx r wall hevent
  · rfl

theorem map_callsIn (job : Nat) (entries : List (Entry P R)) :
    (callsIn job entries).map (·.2) = reportsOf job entries := by
  unfold callsIn reportsOf
  rw [List.map_filterMap]
  congr 1
  funext x
  cases x.event with
  | reported k r wall =>
    by_cases hk : k = job
    · simp [hk]
    · simp [hk]
  | _ => rfl

def Event.isBulk : Event P R → Bool
  | .bulkCalled _ _ | .bulkEnded _ _ => true
  | _ => false

/-- The reports of the calls are those of the outcomes of a result with so many tasks, one for each, and
beside them those that were overruled. -/
structure Feedback (calls : List (Int × Report)) (beside : List Report) (tasks : Nat)
    (r : BatchResult R) : Prop where
  exactly : (calls.map (·.2)).Perm (r.outcomes.filterMap (·.report?) ++ beside)
  successes : (calls.map (·.2)).count .success = r.successCount + beside.count .success
  failures : (calls.map (·.2)).count .failure = r.failureCount + beside.count .failure
  total : calls.length = tasks + beside.length
  /-- Each outcome is reported once and nothing else is, unless there is an overruled report. -/
  once : (calls.map (·.2)).Perm (r.outcomes.filterMap (·.report?)) ↔ beside = []

theorem count_report (outcomes : List (Outcome R)) :
    (outcomes.filterMap (·.report?)).count .success = outcomes.countP (·.isSuccess) ∧
      (outcomes.filterMap (·.report?)).count .failure = outcomes.countP (·.isFailure) := by
  rw [List.count, List.count, List.countP_filterMap, List.countP_filterMap]
  constructor
  · refine List.countP_congr fun o _ => ?_
    cases o <;> simp [Outcome.report?, Outcome.isSuccess]
  · refine List.countP_congr fun o _ => ?_
    cases o <;> simp [Outcome.report?, Outcome.isFailure]

theorem length_report {outcomes : List (Outcome R)} (h : ∀ o ∈ outcomes, o ≠ .pending) :
    (outcomes.filterMap (·.report?)).length = outcomes.length := by
  rw [List.length_filterMap_eq_countP, List.countP_eq_length]
  intro o ho
  cases o with
  | pending => exact absurd rfl (h _ ho)
  | success value => rfl
  | failure reason => rfl

namespace Engine

/-- What a job has told the breaker since the journal had this length, the earliest first, with the
readings of the wall clock. -/
def tellings (e : Engine P R) (job length : Nat) : List (Int × Report) :=
  callsIn job (e.since length)

/-- What tasks of a job have told the breaker since the journal had this length, and were cut off before
they ended. -/
def overrulings (e : Engine P R) (job length : Nat) : List Report := overruled job (e.since length)

theorem tellings_eq {e e' : Engine P R} {added : List (Entry P R)} (job : Nat)
    (h : e'.journal = added ++ e.journal) :
    e'.tellings job e.journal.length = callsIn job added.reverse := by
  rw [tellings, since_eq h]

/-- A result that has told everything has told the breaker of each outcome. -/
theorem Told.feedback {e e' : Engine P R} {job : Nat} {tasks : List (BatchTask P)}
    {r : BatchResult R} (h : Told e' job tasks e.journal r) (hadds : Adds (fun _ => True) e e') :
    Feedback (e'.tellings job e.journal.length) (e'.overrulings job e.journal.length) tasks.length
      r := by
  obtain ⟨added, hjournal, _⟩ := hadds
  have htold : ((e'.tellings job e.journal.length).map (·.2)).Perm (reportsOf job added) := by
    rw [tellings_eq job hjournal, map_callsIn, reportsOf, List.filterMap_reverse]
    exact List.reverse_perm _
  have hover : (e'.overrulings job e.journal.length).Perm (overruled job added) := by
    rw [overrulings, since_eq hjournal, overruled, List.filterMap_reverse]
    exact List.reverse_perm _
  -- What had happened when the batch began stands on both sides.
  have hadded : (reportsOf job added).Perm
      (r.outcomes.filterMap (·.report?) ++ overruled job added) := by
    have hreports := h.reports
    rw [hjournal, reportsOf_append, overruled_append] at hreports
    rw [List.perm_iff_count] at hreports ⊢
    intro report
    have hcount := hreports report
    simp only [List.count_append] at hcount ⊢
    omega
  have hexactly : ((e'.tellings job e.journal.length).map (·.2)).Perm
      (r.outcomes.filterMap (·.report?) ++ e'.overrulings job e.journal.length) :=
    htold.trans (hadded.trans (hover.symm.append_left _))
  have hlength := hexactly.length_eq
  rw [List.length_map, List.length_append, length_report h.closed, h.length] at hlength
  obtain ⟨hsuccesses, hfailures⟩ := count_report r.outcomes
  refine ⟨hexactly, ?_, ?_, hlength, ?_⟩
  · rw [hexactly.count_eq, List.count_append, hsuccesses]
    rfl
  · rw [hexactly.count_eq, List.count_append, hfailures]
    rfl
  · constructor
    · intro honce
      have hsame := honce.length_eq
      rw [List.length_map, length_report h.closed, h.length] at hsame
      exact List.eq_nil_of_length_eq_zero (by omega)
    · intro hnone
      rwa [hnone, List.append_nil] at hexactly

/-! ### What the breaker hears -/

/-- Between the two engines the breaker hears what this job tells it, and nothing else. -/
def Feeds (job : Nat) (e e' : Engine P R) : Prop :=
  ∃ added, e'.journal = added ++ e.journal ∧
    e'.breaker = e.breaker.hear (callsIn job added.reverse)

namespace Feeds

variable {job : Nat} {e e₁ e₂ : Engine P R}

theorem trans (h₁ : Feeds job e e₁) (h₂ : Feeds job e₁ e₂) : Feeds job e e₂ := by
  obtain ⟨added₁, hjournal₁, hbreaker₁⟩ := h₁
  obtain ⟨added₂, hjournal₂, hbreaker₂⟩ := h₂
  refine ⟨added₂ ++ added₁, ?_, ?_⟩
  · rw [hjournal₂, hjournal₁, List.append_assoc]
  · rw [hbreaker₂, hbreaker₁, List.reverse_append, callsIn_append, Breaker.hear_append]

theorem silent {p : Event P R → Prop} (hbreaker : e₁.breaker = e.breaker) (hadds : Adds p e e₁)
    (hnone : ∀ event, p event → ∀ r wall, event ≠ .reported job r wall) : Feeds job e e₁ := by
  obtain ⟨added, hjournal, hp⟩ := hadds
  refine ⟨added, hjournal, ?_⟩
  rw [hbreaker, callsIn_eq_nil fun x hx => hnone _ (hp x (List.mem_reverse.mp hx))]
  rfl

theorem same (hbreaker : e₁.breaker = e.breaker) (hjournal : e₁.journal = e.journal) :
    Feeds job e e₁ :=
  silent (p := fun _ => False) hbreaker (.nothing hjournal) fun _ h => h.elim

theorem report (e : Engine P R) (r : Report) : Feeds job e (e.report job r) := by
  refine ⟨[⟨e.now, .reported job r e.wall⟩], rfl, ?_⟩
  simp [callsIn, Breaker.hear, Engine.report, note, setBreaker]

end Feeds

theorem Stores.feeds {job k : Nat} {e e' : Engine P R} (h : Stores k e e') : Feeds job e e' := by
  refine .silent h.breaker h.journal ?_
  rintro event ⟨call, rfl⟩ r wall hevent
  cases hevent

theorem settleChunk_feeds (e : Engine P R) (job : Nat) (reason : String) (chunk : List Nat)
    (outcomes : List (Outcome R)) : Feeds job e (e.settleChunk job reason chunk outcomes).1 := by
  induction chunk generalizing e outcomes with
  | nil => exact .same rfl rfl
  | cons index rest ih =>
    simp only [settleChunk]
    split
    · exact (Feeds.report e .failure).trans (ih _ _)
    · exact ih e outcomes

theorem workerTurn_feeds (e : Engine P R) (w : Worker P R) : Feeds w.job e (e.workerTurn w).1 := by
  obtain ⟨number, job, position, index, payload, phase, turn⟩ := w
  have hcalled {e₁ : Engine P R} {inFlight : Nat} {stop : Nat} (hbreaker : e₁.breaker = e.breaker)
      (hjournal : e₁.journal =
        ⟨stop, .singleCalled job position payload inFlight⟩ :: e.journal) : Feeds job e e₁ := by
    refine .silent (p := fun event => ∃ inFlight, event =
      .singleCalled job position payload inFlight) hbreaker (.one hjournal ⟨_, rfl⟩) ?_
    rintro event ⟨_, rfl⟩ r wall hevent
    cases hevent
  have hended (answer : Option (Except DownstreamFailure R)) (outcome : Outcome R) (r : Report)
      (w : Worker P R) (hw : w.job = job) : Feeds job e (e.endCall w answer outcome r).1 := by
    subst hw
    have hnoted : Feeds w.job e (e.note (.singleEnded w.job w.position answer)) := by
      refine .silent (p := fun event => event = .singleEnded w.job w.position answer) rfl
        (.one rfl rfl) ?_
      rintro event rfl r wall hevent
      cases hevent
    exact hnoted.trans (.report _ r)
  cases phase with
  | fresh =>
    simp only [workerTurn]
    split
    · exact hcalled rfl rfl
    · exact .same rfl rfl
  | queued limit =>
    simp only [workerTurn]
    split
    · exact hcalled rfl rfl
    · have hwithdrawn : Feeds job e (e.setLimiter (e.limiter.withdraw number)) :=
        .same rfl rfl
      exact hwithdrawn.trans (.report _ .failure)
  | working call cutoff =>
    simp only [workerTurn]
    split
    · exact hended _ _ _ _ rfl
    · exact hended _ _ _ _ rfl
    · exact .same rfl rfl
    · exact hended _ _ _ _ rfl
  | reported permit outcome => exact .same rfl rfl
  | ended outcome => exact .same rfl rfl

theorem Route.stores {e : Engine P R} {j : Job P R} {result : Engine P R × Stage P R}
    (h : Route e j result) (hsuits : j.stage.Suits j.assignment)
    (hnot : j.assignment.isSender = false) : Stores j.number e result.1 := by
  have hsubmission : j.assignment.isSubmission ≠ true := by
    intro hsubmission
    rw [Assignment.isSender_of_isSubmission hsubmission] at hnot
    cases hnot
  have hnone : Stores j.number e e := ⟨rfl, rfl, .nothing rfl⟩
  cases h with
  | sends sender source unanswered h =>
    rw [sender] at hnot
    cases hnot
  | miscounts answered wrong =>
    rw [answered.1] at hsuits
    exact absurd hsuits hsubmission
  | answers answered right =>
    rw [answered.1] at hsuits
    exact absurd hsuits hsubmission
  | idles source submission none empty => exact absurd submission hsubmission
  | rejects source admission reviewed => exact hnone
  | writes source write =>
    exact (openWrite_stores e j.number _).trans (followWrite_stores j.number _ _ _)
  | proceeds source =>
    exact (writeTurn_stores e j.number _).trans (followWrite_stores j.number _ _ _)
  | comes source occupation => exact ⟨rfl, rfl, .nothing rfl⟩
  | occupies source => exact hnone
  | vacates source => exact ⟨rfl, rfl, .nothing rfl⟩
  | holds hold before after => exact ⟨rfl, rfl, .nothing rfl⟩
  | resumes source | collects source found | pauses source none some
  | reopens source none some | finishes source none last =>
    rw [source] at hsuits
    exact absurd (hnot.symm.trans hsuits) Bool.false_ne_true

theorem not_isSending_of_shows {stage : Stage P R} {r : BatchResult R} (h : stage.Shows r) :
    stage.isSending = false := by
  cases stage <;> first | rfl | cases h

theorem followWrite_not_isSending (a : Assignment P) (result : Option (BatchResult R))
    (turn : Engine P R × WriteTurn) : (followWrite a result turn).2.isSending = false := by
  rcases turn with ⟨e, run | crash | error | rows⟩
  · rfl
  · simp only [followWrite, conclude_eq]
    rfl
  · simp only [followWrite, conclude_eq]
    rfl
  · cases result <;> (simp only [followWrite, conclude_eq]; rfl)

/-- What a turn leads to that has nothing to do with bulk calls: it may tell the breaker something, and asks
it nothing. -/
structure PastBulk (job : Nat) (e : Engine P R) (result : Engine P R × Stage P R) : Prop where
  stage : result.2.isSending = false
  feeds : Feeds job e result.1
  journal : Adds (fun event => event.isBulk = false) e result.1

theorem Stores.pastBulk {job k : Nat} {e : Engine P R} {result : Engine P R × Stage P R}
    (h : Stores k e result.1) (hstage : result.2.isSending = false) : PastBulk job e result := by
  refine ⟨hstage, h.feeds, h.journal.mono ?_⟩
  rintro event ⟨call, rfl⟩
  rfl

/-- A job that has neither to begin nor to do with bulk calls will not have to any more. -/
theorem Route.past {e : Engine P R} {j : Job P R} {result : Engine P R × Stage P R}
    (h : Route e j result) (hpast : j.stage.isSending = false) : PastBulk j.number e result := by
  have hsettled {result : Engine P R × Stage P R} {run : BatchRun P R}
      (hafter : PastBulk j.number (e.settled j.number run).1 result) :
      PastBulk j.number e result := by
    have hdismissed : Feeds j.number e (e.dismissAll j.number) := by
      refine .silent rfl (dismissAll_journal e j.number) ?_
      rintro event ⟨position, told, rfl⟩ r wall hevent
      cases hevent
    have hjournal : Adds (fun event => event.isBulk = false) e (e.settled j.number run).1 := by
      refine (settled_journal e j.number run).mono ?_
      rintro event (⟨position, told, rfl⟩ | ⟨r, wall, rfl⟩)
      · rfl
      · rfl
    exact ⟨hafter.stage, (hdismissed.trans (settleChunk_feeds _ _ _ _ _)).trans hafter.feeds,
      hjournal.trans hafter.journal⟩
  have hnever {stage : Stage P R} (hstage : j.stage = stage) (hsending : stage.isSending = true) :
      False := by
    rw [hstage, hsending] at hpast
    cases hpast
  cases h with
  | sends sender source unanswered h => exact (hnever rfl source).elim
  | miscounts answered wrong | answers answered right => exact (hnever answered.1 rfl).elim
  | idles source submission none empty | rejects source admission reviewed | writes source write
  | comes source occupation => exact (hnever source rfl).elim
  | proceeds source =>
    exact ((writeTurn_stores e j.number _).trans (followWrite_stores j.number _ _ _)).pastBulk
      (followWrite_not_isSending _ _ _)
  | occupies source | vacates source | resumes source | collects source found =>
    exact ⟨rfl, .same rfl rfl, .nothing rfl⟩
  | pauses source none some | reopens source none some =>
    exact hsettled ⟨rfl, .same rfl rfl, .nothing rfl⟩
  | finishes source none last =>
    exact hsettled ((answered_stores _ j.number _ _ _).pastBulk
      (not_isSending_of_shows (answered_shows _ _ _ _ _)))
  | holds hold before after =>
    refine ⟨?_, .same rfl rfl, .nothing rfl⟩
    rcases after with ⟨_, rfl⟩ | ⟨_, _, rfl⟩ | ⟨_, rfl⟩ | ⟨_, rfl⟩ <;> rfl

theorem Accounts.past {e : Engine P R} {job : Nat} {a : Assignment P} {start : List (Entry P R)}
    {stage : Stage P R} (h : Accounts e job a start stage) : stage.isSending = false := by
  cases h with
  | joining | pausing => rfl
  | told shows told => exact not_isSending_of_shows shows

/-- Nobody else has anything to send any more. -/
def SoleSender (e : Engine P R) (job : Nat) : Prop :=
  ∀ k ∈ e.jobs, k.number ≠ job →
    k.assignment.isSender = false ∨ ∃ time ending, k.stage = .finished time ending

theorem Move.soleSender {e e' : Engine P R} {job : Nat} (hmove : Move e e') (hwf : e.WellFormed)
    (h : e.SoleSender job) : e'.SoleSender job := by
  intro k hk hother
  rcases hmove.mem_jobs hwf hk with hold | ⟨j, hj, hready, rfl⟩
  · exact h k hold hother
  · refine (h j hj hother).imp id ?_
    rintro ⟨time, ending, hstage⟩
    rw [Job.isReady, hstage] at hready
    cases hready

theorem serveWorker_feeds {e : Engine P R} {job : Nat} (hregular : e.Regular)
    (hsole : e.SoleSender job) {w : Worker P R} (hw : w ∈ e.workers) :
    Feeds job e (e.serveWorker w) := by
  obtain ⟨j, hj, hnumber, hjoining⟩ := hregular.reached.wellFormed.staffed w hw
  have hown : w.job = job := by
    by_contra hother
    rcases hsole j hj (hnumber ▸ hother) with hnot | ⟨time, ending, hstage⟩
    · have hsuits := hregular.suited j hj
      cases hstage : j.stage with
      | joining attempts run =>
        rw [hstage] at hsuits
        exact absurd (hnot.symm.trans hsuits) Bool.false_ne_true
      | _ =>
        rw [hstage] at hjoining
        cases hjoining
    · rw [hstage] at hjoining
      cases hjoining
  subst hown
  exact workerTurn_feeds e w

theorem serveJob_feeds_other {e : Engine P R} {job : Nat} (hregular : e.Regular)
    (hsole : e.SoleSender job) {j : Job P R} (hj : j ∈ e.jobs) (hready : j.isReady e = true)
    (hother : j.number ≠ job) : Feeds job e (e.serveJob j) := by
  rcases hsole j hj hother with hnot | ⟨time, ending, hstage⟩
  · have hroute := hregular.suited.route hregular.reached.wellFormed hj hready
    have hturn : Feeds job e (e.serveJob j) := (hroute.stores (hregular.suited j hj) hnot).feeds
    exact hturn
  · rw [Job.isReady, hstage] at hready
    cases hready

/-- The job with this number has neither to begin nor to do with bulk calls. -/
def Past (e : Engine P R) (job : Nat) : Prop :=
  ∀ j ∈ e.jobs, j.number = job → j.stage.isSending = false

theorem Move.past {e e' : Engine P R} {job : Nat} (hmove : Move e e') (hregular : e.Regular)
    (hpast : e.Past job) : e'.Past job := by
  have hwf := hregular.reached.wellFormed
  intro k hk hnumber
  cases hmove.happens hwf hregular.suited hk with
  | elsewhere same helse => exact hpast k same hnumber
  | worker same member own ready next => exact hpast k same hnumber
  | @turn j member ready moved next =>
    subst moved
    exact ((hregular.suited.route hwf member ready).past (hpast j member hnumber)).stage

/-- While nobody else sends, the breaker hears a job that is past its bulk calls, and nothing else. -/
theorem Move.feeds {e e' : Engine P R} {job : Nat} (hmove : Move e e') (hregular : e.Regular)
    (hsole : e.SoleSender job) (hpast : e.Past job) : Feeds job e e' := by
  cases hmove with
  | worker member ready => exact serveWorker_feeds hregular hsole member
  | @job j member ready =>
    by_cases hown : j.number = job
    · subst hown
      have hroute := hregular.suited.route hregular.reached.wellFormed member ready
      have hturn : Feeds j.number e (e.serveJob j) := (hroute.past (hpast j member rfl)).feeds
      exact hturn
    · exact serveJob_feeds_other hregular hsole member ready hown
  | tick quiet due => exact .same rfl rfl

theorem Course.feeds {e e' : Engine P R} {job : Nat} (hcourse : Course e e')
    (hregular : e.Regular) (hsole : e.SoleSender job) (hpast : e.Past job) : Feeds job e e' := by
  have hall : (e'.Regular ∧ e'.SoleSender job ∧ e'.Past job) ∧ Feeds job e e' := by
    refine hcourse.keeps (I := fun e₁ => (e₁.Regular ∧ e₁.SoleSender job ∧ e₁.Past job) ∧
      Feeds job e e₁) ?_ ⟨⟨hregular, hsole, hpast⟩, .same rfl rfl⟩
    rintro e₁ e₂ hmove ⟨⟨hregular₁, hsole₁, hpast₁⟩, hfeeds⟩
    exact ⟨⟨hmove.regular hregular₁, hmove.soleSender hregular₁.reached.wellFormed hsole₁,
      hmove.past hregular₁ hpast₁⟩, hfeeds.trans (hmove.feeds hregular₁ hsole₁ hpast₁)⟩
  exact hall.2

/-! ### The admission of a batch -/

/-- In this turn the breaker admits the tasks of a job as a batch: until then the job has sent none of
them, and afterwards it waits for them. -/
def AdmitsBatch (e : Engine P R) (j : Job P R) : Prop :=
  j.stage.isSending = true ∧ (e.jobTurn j).2.isJoining = true

theorem not_isJoining_of_shows {stage : Stage P R} {r : BatchResult R} (h : stage.Shows r) :
    stage.isJoining = false := by
  cases stage <;> first | rfl | cases h

theorem followWrite_none_not_isJoining (a : Assignment P) (turn : Engine P R × WriteTurn) :
    (followWrite a none turn).2.isJoining = false := by
  rcases turn with ⟨e, run | crash | error | rows⟩
  · rfl
  · simp only [followWrite, conclude_eq]
    rfl
  · simp only [followWrite, conclude_eq]
    rfl
  · simp only [followWrite, conclude_eq]
    rfl

/-- The last thing before the first chunk is that the breaker admits the batch. -/
theorem AdmitsBatch.opens {e : Engine P R} (hregular : e.Regular) {j : Job P R} (hj : j ∈ e.jobs)
    (hready : j.isReady e = true) (h : e.AdmitsBatch j) :
    j.assignment.isSender = true ∧ ∃ e₁ breaker attempts, Paper j.number (e.heard j) e₁ ∧
      checkTasks j.assignment.tasks = .ok () ∧
      e₁.breaker.admitBulk e₁.wall = .ok (.ok (), breaker) ∧
      e.jobTurn j = (e₁.setBreaker breaker).openChunk j.number attempts
        (.whole j.assignment.tasks) := by
  obtain ⟨hsending, hjoining⟩ := h
  have hroute := hregular.suited.route hregular.reached.wellFormed hj hready
  generalize e.jobTurn j = result at hroute hjoining
  -- All other turns from such a stage lead to another call, to a wait or to an end.
  have hshows {stage : Stage P R} {r : BatchResult R} (hstage : stage.Shows r)
      (h : stage.isJoining = true) : False := by
    rw [not_isJoining_of_shows hstage] at h
    cases h
  cases hroute with
  | sends sender source unanswered h =>
    cases h with
    | opens paper some valid admitted => exact ⟨sender, _, _, _, paper, valid, admitted, rfl⟩
    | refused paper refusal =>
      rw [conclude_eq] at hjoining
      cases hjoining
    | calls paper submission => cases hjoining
    | waits paper submission => cases hjoining
    | empties paper none => exact (hshows (answered_shows _ _ _ _ _) hjoining).elim
  | miscounts answered wrong =>
    rw [conclude_eq] at hjoining
    cases hjoining
  | answers answered right => exact (hshows (answered_shows _ _ _ _ _) hjoining).elim
  | @writes due updates source write =>
    rw [followWrite_none_not_isJoining] at hjoining
    cases hjoining
  | proceeds source | resumes source | collects source found | reopens source none some =>
    rw [source] at hsending
    cases hsending
  | finishes source none last => exact (hshows (answered_shows _ _ _ _ _) hjoining).elim
  | holds hold before after =>
    rcases after with ⟨_, rfl⟩ | ⟨_, _, rfl⟩ | ⟨_, rfl⟩ | ⟨_, rfl⟩ <;> cases hjoining
  | _ => cases hjoining

theorem Tells.unanswered {e : Engine P R} {job : Nat} {a : Assignment P} {stage : Stage P R}
    (h : Tells e job a stage) (hsending : stage.isSending = true) (q : Nat) (value : R) :
    ¬ e.Answered job q value := by
  have hnone : ¬ e.Acked job := by
    cases stage with
    | arriving due => exact h
    | calling run => exact h.2
    | backingOff attempt deadline due => exact h.2
    | _ => cases hsending
  rintro ⟨stop, hmem⟩
  exact hnone ⟨_, List.mem_filter.mpr ⟨hmem, rfl⟩, rfl, rfl⟩

/-- A batch that is admitted begins its account. -/
theorem AdmitsBatch.accounts {e : Engine P R} (hregular : e.Regular) {j : Job P R}
    (hj : j ∈ e.jobs) (hready : j.isReady e = true) (h : e.AdmitsBatch j) :
    ∀ k ∈ (e.serveJob j).jobs, k.number = j.number → Accounts (e.serveJob j) j.number k.assignment
      (e.serveJob j).journal k.stage := by
  have hwf := hregular.reached.wellFormed
  obtain ⟨_, e₁, breaker, attempts, hpaper, hvalid, _, hturn⟩ := h.opens hregular hj hready
  have hnone : ∀ w ∈ (e₁.setBreaker breaker).workers, w.job ≠ j.number := by
    intro w hw hjob
    have hw' : w ∈ e₁.workers := hw
    rw [hpaper.frame.floor.workers, heard_workers] at hw'
    exact hwf.no_workers hj (Stage.not_isJoining_of_isSending h.1) w hw' hjob
  have hunanswered (q : Nat) (value : R) : ¬ (e₁.setBreaker breaker).Answered j.number q value := by
    intro hanswered
    have hheard : (e.heard j).Answered j.number q value := by
      refine (hpaper.frame.journal.answered ?_ q value).mp hanswered
      rintro event ⟨r, wall, rfl⟩ q value hevent
      cases hevent
    exact (hregular.reached.truthful j hj).unanswered h.1 q value
      (((heard_journal e j).answered (by simp) q value).mp hheard)
  have haccounts := openChunk_accounts attempts hvalid hnone hunanswered
  have hjournal : (e.serveJob j).journal = (e₁.setBreaker breaker).journal := by
    simp only [serveJob, hturn]
    rfl
  intro k hk hnumber
  rcases mem_serveJob hwf hj hready hk with rfl | ⟨_, hne⟩
  · rw [hjournal]
    rw [← hturn] at haccounts
    exact haccounts.frame (.refl _) (.nothing rfl)
  · exact absurd hnumber hne

/-- When a job with an account has been answered, the breaker has been told of each of its tasks. -/
theorem Course.feedback {e e' : Engine P R} (hcourse : Course e e') (hregular : e.Regular)
    {number : Nat} (haccounts : ∀ j ∈ e.jobs, j.number = number →
      Accounts e number j.assignment e.journal j.stage) {k : Job P R}
    (hk : k ∈ e'.jobs) (hnumber : k.number = number) {time : Nat} {ending : Ending R}
    (hstage : k.stage = .finished time ending) :
    ∃ r, k.stage.Shows r ∧
      Feedback (e'.tellings number e.journal.length) (e'.overrulings number e.journal.length)
        k.assignment.tasks.length r ∧
      (e.SoleSender number → e'.breaker = e.breaker.hear (e'.tellings number e.journal.length)) := by
  have hheard (hsole : e.SoleSender number) :
      e'.breaker = e.breaker.hear (e'.tellings number e.journal.length) := by
    obtain ⟨added, hjournal, hbreaker⟩ :=
      Course.feeds hcourse hregular hsole fun j hj hjob => (haccounts j hj hjob).past
    rw [hbreaker, tellings_eq number hjournal]
  have hgrows : Adds (fun _ => True) e e' :=
    (Course.whole hcourse hregular.reached.wellFormed hregular.suited).mono fun _ _ => trivial
  have hold := Course.accounts hcourse hregular haccounts k hk hnumber
  rw [hstage] at hold ⊢
  cases hold with
  | told shows told => exact ⟨_, shows, told.feedback hgrows, hheard⟩

theorem Course.exists_job {e e' : Engine P R} (hcourse : Course e e') (hwf : e.WellFormed)
    {j : Job P R} (hj : j ∈ e.jobs) :
    ∃ k ∈ e'.jobs, k.number = j.number ∧ k.assignment = j.assignment := by
  have hmem : (j.number, j.assignment) ∈ e'.roster := by
    rw [Course.roster hcourse hwf]
    exact List.mem_map_of_mem hj
  obtain ⟨k, hk, hsame⟩ := List.mem_map.mp hmem
  exact ⟨k, hk, congrArg Prod.fst hsame, congrArg Prod.snd hsame⟩

/-- Whatever comes after the turn in which a batch is admitted: when everything is settled, the job has
ended, and if there is a result, the breaker has been told of it. -/
theorem AdmitsBatch.feedback {e done : Engine P R} (hregular : e.Regular) {j : Job P R}
    (hj : j ∈ e.jobs) (hready : j.isReady e = true) (h : e.AdmitsBatch j)
    (hrun : Course (e.serveJob j) done) (hsettled : done.Settled) :
    ∃ k ∈ done.jobs, k.number = j.number ∧ ∃ time ending, k.ending? = some (time, ending) ∧
      ∃ r, (∀ receipt, ending = .ok (.ok receipt) → receipt.result? = some r) ∧
        Feedback (done.tellings j.number (e.serveJob j).journal.length)
          (done.overrulings j.number (e.serveJob j).journal.length) j.assignment.tasks.length r ∧
        ((e.serveJob j).SoleSender j.number → done.breaker = (e.serveJob j).breaker.hear
          (done.tellings j.number (e.serveJob j).journal.length)) := by
  have hserved := (Move.job hj hready).regular hregular
  have hself := self_mem_serveJob hregular.reached.wellFormed hj hready
  obtain ⟨k, hk, hnumber, hassignment⟩ := Course.exists_job hrun hserved.reached.wellFormed hself
  have hoccupation : k.assignment.isOccupation = false := by
    have hsender := (h.opens hregular hj hready).1
    rw [hassignment]
    cases hassigned : j.assignment with
    | occupy stay =>
      rw [hassigned] at hsender
      cases hsender
    | _ => rfl
  obtain ⟨time, ending, hstage⟩ :=
    hsettled.finished (Course.regular hrun hserved).reached.wellFormed hk hoccupation
  obtain ⟨r, hshows, hfeedback, hheard⟩ := Course.feedback hrun hserved
    (h.accounts hregular hj hready) hk hnumber hstage
  rw [hassignment] at hfeedback
  refine ⟨k, hk, hnumber, time, ending, by rw [Job.ending?, hstage], r, ?_, hfeedback, hheard⟩
  rintro receipt rfl
  rw [hstage] at hshows
  exact hshows

/-! ### The first of several jobs -/

theorem AtRest.soleSender {e : Engine P R} (hrest : e.AtRest) (a : Assignment P)
    {others : List (Nat × Assignment P)} (hothers : ∀ x ∈ others, x.2.isSender = false) :
    (e.addJobs ((0, a) :: others)).unturned.SoleSender e.nextNumber := by
  intro k hk hother
  obtain ⟨i, wait, _, hassigned, hnumber⟩ := hrest.exists_assignment .refl hk
  cases i with
  | zero => exact absurd hnumber hother
  | succ i =>
    rw [List.getElem?_cons_succ] at hassigned
    exact Or.inl (hothers _ (List.mem_of_getElem? hassigned))

end Engine

end OrderAdmission
