import OrderAdmission.Proofs.BulkCalls
import OrderAdmission.Proofs.Feedback
import OrderAdmission.Proofs.Outcomes

/-!
# Where a submission goes

The bulk calls of a submission end in one turn: the *decision*. Without bulk calls it is the first turn,
which hands the orders to the executor. Otherwise it is the turn in which the last bulk call is answered
or the bulk calls are given up, and after a failure that calls for fallback the size of the batch says
whether the orders go to the executor one by one or the submission ends with the failure.

`Took` says that a job has had a turn of some kind on the way from one engine to another, so that the
history of a submission can be spoken of on every course, however its turns are interleaved with those
of others. Before the decision nothing has been sent singly, and after it there is no bulk call; the
main result, `submission_routed`, puts these together: **every submission goes where its settings and
its last failure send it, and says so**.
-/
namespace OrderAdmission

variable {P R : Type}

/-- A phase of a submission that has ended fits its result, and nothing else. -/
structure SubmissionOutcome.PhaseFits (o : SubmissionOutcome R) : Prop where
  final : o.phase = .success ∨ o.phase = .partialSuccess ∨ o.phase = .failure
  success : o.phase = .success ↔ ∀ x ∈ o.result.outcomes, x.isSuccess = true
  failure : o.phase = .failure ↔ ∀ x ∈ o.result.outcomes, x.isSuccess = false
  partialSuccess : o.phase = .partialSuccess ↔
    (∃ x ∈ o.result.outcomes, x.isSuccess = true) ∧ ∃ x ∈ o.result.outcomes, x.isSuccess = false

theorem SubmissionPhase.ofResult_fits {result : BatchResult R} (calls : Nat)
    (hclosed : ∀ o ∈ result.outcomes, o ≠ .pending) (hsome : result.outcomes ≠ []) :
    SubmissionOutcome.PhaseFits { phase := .ofResult result, result, bulkAttempts := calls } := by
  have hall := BatchResult.allSucceeded_iff hclosed
  have hany : 0 < result.successCount ↔ ∃ o ∈ result.outcomes, o.isSuccess = true :=
    List.countP_pos_iff
  obtain ⟨first, hfirst⟩ := List.exists_mem_of_ne_nil _ hsome
  by_cases hevery : ∀ o ∈ result.outcomes, o.isSuccess = true
  · have hphase : SubmissionPhase.ofResult result = .success := if_pos (hall.mpr hevery)
    have hsome_not : ¬ ∃ o ∈ result.outcomes, o.isSuccess = false := by
      rintro ⟨o, ho, hnot⟩
      cases (hevery o ho).symm.trans hnot
    refine ⟨.inl hphase, iff_of_true hphase hevery, iff_of_false ?_ ?_, iff_of_false ?_ ?_⟩
    · simp [hphase]
    · exact fun hnone => hsome_not ⟨first, hfirst, hnone first hfirst⟩
    · simp [hphase]
    · exact fun hboth => hsome_not hboth.2
  · have hnot : ∃ o ∈ result.outcomes, o.isSuccess = false := by simpa using hevery
    by_cases hone : ∃ o ∈ result.outcomes, o.isSuccess = true
    · have hphase : SubmissionPhase.ofResult result = .partialSuccess := by
        rw [ofResult, if_neg (fun h => hevery (hall.mp h)), if_pos (hany.mpr hone)]
      obtain ⟨o, ho, hsuccess⟩ := hone
      refine ⟨.inr (.inl hphase), iff_of_false ?_ hevery, iff_of_false ?_ ?_,
        iff_of_true hphase ⟨⟨o, ho, hsuccess⟩, hnot⟩⟩
      · simp [hphase]
      · simp [hphase]
      · exact fun hnone => Bool.false_ne_true ((hnone o ho).symm.trans hsuccess)
    · have hphase : SubmissionPhase.ofResult result = .failure := by
        rw [ofResult, if_neg (fun h => hevery (hall.mp h)), if_neg (fun h => hone (hany.mp h))]
      refine ⟨.inr (.inr hphase), iff_of_false ?_ hevery, iff_of_true hphase ?_,
        iff_of_false ?_ fun hboth => hone hboth.1⟩
      · simp [hphase]
      · intro o ho
        exact eq_false_of_ne_true fun hsuccess => hone ⟨o, ho, hsuccess⟩
      · simp [hphase]

/-- Whether work has broken off. -/
def Stage.IsCrash : Stage P R → Prop
  | .finished _ (.error _) => True
  | _ => False

namespace Engine

/-! ### Turns on the way -/

/-- On the way from one engine to another, the job has had a turn of this kind. -/
def Took (start e : Engine P R) (job : Nat) (kind : Engine P R → Job P R → Prop) : Prop :=
  ∃ e₁ j, Course start e₁ ∧ j ∈ e₁.jobs ∧ j.number = job ∧ j.isReady e₁ = true ∧ kind e₁ j ∧
    Course (e₁.serveJob j) e

theorem Took.mono {start e e' : Engine P R} {job : Nat} {kind : Engine P R → Job P R → Prop}
    (h : Took start e job kind) (hcourse : Course e e') : Took start e' job kind := by
  obtain ⟨e₁, j, hbefore, hj, hnumber, hready, hkind, hafter⟩ := h
  exact ⟨e₁, j, hbefore, hj, hnumber, hready, hkind, hafter.trans hcourse⟩

/-- A turn that gives up the bulk calls, after so many of them, because of a failure of the last. -/
def GivesUp (calls : Nat) (failure : DownstreamFailure) (e : Engine P R) (j : Job P R) : Prop :=
  ∃ run, j.stage = .calling run ∧ run.attempt = calls ∧
    e.bulkFailure? j.assignment.orders run = some failure ∧ e.LastStraw run failure

/-- A turn in which a bulk call, the last of so many, has come back with an item for each order. -/
def GetsItems (calls : Nat) (e : Engine P R) (j : Job P R) : Prop :=
  ∃ run items, j.stage = .calling run ∧ run.attempt = calls ∧
    run.call.reply? e.now = some (some (.ok items)) ∧ items.length = j.assignment.orders.length

/-- A turn that hands all orders to the executor as the tasks of one batch, after so many bulk calls;
before that it does paper work at most. -/
def HandsOver (orders : List P) (calls : Nat) (e : Engine P R) (j : Job P R) : Prop :=
  ∃ e', Paper j.number (e.heard j) e' ∧ e.jobTurn j = followStart j.number (.submit orders) calls
    (e'.startBatch j.number calls (BatchTask.ofPayloads orders))

/-- A turn after which there are no more bulk calls. -/
def Decides (e : Engine P R) (j : Job P R) : Prop :=
  j.stage.isSending = true ∧ (e.jobTurn j).2.isSending = false

/-- An engine at which no job has begun. -/
structure Outset (start : Engine P R) : Prop where
  regular : start.Regular
  passages : Passages start start
  sending : ∀ j ∈ start.jobs, j.stage.isSending = true

theorem AtRest.outset {e : Engine P R} (hrest : e.AtRest)
    (assignments : List (Nat × Assignment P)) : (e.addJobs assignments).unturned.Outset := by
  refine ⟨hrest.regular assignments, hrest.passages assignments, ?_⟩
  intro j hj
  obtain ⟨due, hstage⟩ := hrest.arriving hj
  rw [hstage]
  rfl

/-- A turn that takes a job out of the stages of a kind. -/
def Quits (p : Stage P R → Bool) (e : Engine P R) (j : Job P R) : Prop :=
  p j.stage = true ∧ p (e.jobTurn j).2 = false

/-- Where all jobs are at stages of a kind, a job that is no longer at one has left them in a turn. -/
theorem Course.left {start e : Engine P R} (hcourse : Course start e) (hregular : start.Regular)
    {p : Stage P R → Bool} (hstart : ∀ j ∈ start.jobs, p j.stage = true) :
    ∀ j ∈ e.jobs, p j.stage = true ∨ Took start e j.number (Quits p) := by
  induction hcourse with
  | refl => exact fun j hj => .inl (hstart j hj)
  | @tail e₁ e₂ hbefore hlast ih =>
    have hregular₁ := Course.regular hbefore hregular
    intro k hk
    have hgrown {job : Nat} (h : Took start e₁ job (Quits p)) : Took start e₂ job (Quits p) :=
      h.mono (.single hlast)
    cases hlast.happens hregular₁.reached.wellFormed hregular₁.suited hk with
    | elsewhere same helse => exact (ih k same).imp id hgrown
    | worker same member own ready next => exact (ih k same).imp id hgrown
    | @turn j member ready moved next =>
      subst moved
      rcases ih j member with hat | htook
      · cases hnext : p (e₁.jobTurn j).2 with
        | true => exact .inl rfl
        | false => exact .inr ⟨e₁, j, hbefore, member, rfl, ready, ⟨hat, hnext⟩, next ▸ .refl⟩
      · exact .inr (hgrown htook)

/-- A job that has neither to begin nor to do with bulk calls has taken its decision. -/
theorem Course.decided {start e : Engine P R} (hcourse : Course start e) (hout : start.Outset) :
    ∀ j ∈ e.jobs, j.stage.isSending = true ∨ Took start e j.number Decides :=
  Course.left hcourse hout.regular hout.sending

theorem Course.same_assignment {e e' : Engine P R} (hcourse : Course e e') (hwf : e.WellFormed)
    {j k : Job P R} (hj : j ∈ e.jobs) (hk : k ∈ e'.jobs) (hnumber : j.number = k.number) :
    j.assignment = k.assignment := by
  obtain ⟨k', hk', hnumber', hassignment⟩ := Course.exists_job hcourse hwf hj
  obtain rfl : k' = k := (hcourse.wellFormed hwf).job_unique hk' hk (hnumber'.trans hnumber)
  exact hassignment.symm

/-! ### The decision -/

theorem LastStraw.congr {e e' : Engine P R} {run : BulkRun R} {failure : DownstreamFailure}
    (h : e.LastStraw run failure) (hdesk : e'.desk = e.desk) (hbreaker : e'.breaker = e.breaker)
    (hwall : e'.wall = e.wall) (hnext : e'.wallAfter 1 = e.wallAfter 1) (hnow : e'.now = e.now) :
    e'.LastStraw run failure := by
  cases h with
  | untriggered h => exact .untriggered (hdesk ▸ h)
  | exhausted h => exact .exhausted (hdesk ▸ h)
  | barred asked => exact .barred (by rw [hbreaker, hwall, hnext]; exact asked)
  | late asked h =>
    exact .late (by rw [hbreaker, hwall, hnext]; exact asked) (by rw [hdesk, hnow]; exact h)

theorem lastStraw_heardBulk {e : Engine P R} (job : Nat) {run : BulkRun R}
    {failure : DownstreamFailure} :
    (e.heardBulk job run).LastStraw run failure ↔ e.LastStraw run failure := by
  have hsame : e.heardBulk job run = { e with journal := (e.heardBulk job run).journal } := by
    unfold heardBulk
    split <;> rfl
  rw [hsame]
  constructor
  · exact fun h => h.congr rfl rfl rfl rfl rfl
  · exact fun h => h.congr rfl rfl rfl rfl rfl

section Turn

variable {e : Engine P R} {j : Job P R} {orders : List P} {calls : Nat} {failure : DownstreamFailure}

theorem handsOver_of_unused {due : Nat} (hassignment : j.assignment = .submit orders)
    (hsome : orders ≠ []) (hstage : j.stage = .arriving due)
    (hunused : e.desk.fallback.bulkEnabled = false) : HandsOver orders 0 e j := by
  obtain ⟨number, a, stage, turn⟩ := j
  obtain rfl : a = .submit orders := hassignment
  obtain rfl : stage = .arriving due := hstage
  refine ⟨e, .refl, ?_⟩
  simp only [jobTurn, startJob, startSubmission, hunused, List.isEmpty_eq_false_iff.mpr hsome,
    Bool.not_false, Bool.false_eq_true, if_false, if_true]
  rfl

/-- The turn that gives up goes to the fallback, if the failure calls for it, and else is the last. -/
theorem GivesUp.turn (h : GivesUp calls failure e j) (hassignment : j.assignment = .submit orders)
    (hfirst : 1 ≤ calls) :
    (e.desk.fallback.retry.triggers failure = false → e.jobTurn j =
        (e.heard j).conclude (.submit orders) (.ok (.error (.downstream failure false)))) ∧
      (e.desk.fallback.retry.triggers failure = true → ∃ e', Paper j.number (e.heard j) e' ∧
        e.jobTurn j = e'.fallBack j.number (.submit orders) calls failure) := by
  obtain ⟨run, hstage, rfl, hfailure, hstraw⟩ := h
  have hheard : e.heard j = e.heardBulk j.number run := by rw [heard, hstage]
  have hdesk : (e.heardBulk j.number run).desk = e.desk := by rw [← hheard, heard_desk]
  have hturn : e.jobTurn j =
      (e.heardBulk j.number run).bulkFailed j.number (.submit orders) run failure := by
    simp only [jobTurn, hstage]
    rw [bulkTurn_failed _ _ hfailure, hassignment]
  rw [hheard, hturn]
  constructor
  · intro htriggers
    exact bulkFailed_untriggered _ _ (hdesk ▸ htriggers)
  · intro htriggers
    exact bulkFailed_givenUp _ _ (hdesk ▸ htriggers) hfirst ((lastStraw_heardBulk _).mpr hstraw)

theorem conclude_isCrash (e : Engine P R) (a : Assignment P) (crash : Crash) :
    (e.conclude a (.error crash)).2.IsCrash := by
  rw [conclude_eq]
  trivial

theorem callBulk_stage (e : Engine P R) (job : Nat) (a : Assignment P) (attempt deadline : Nat) :
    (e.callBulk job a attempt deadline).2.isSending = true ∨
      (e.callBulk job a attempt deadline).2.IsCrash := by
  rw [callBulk_eq]
  split
  · exact .inr (conclude_isCrash e a _)
  · exact .inl rfl

theorem startSubmission_stage (job : Nat) (a : Assignment P)
    (hused : e.desk.fallback.bulkEnabled = true) :
    (e.startSubmission job a).2.isSending = true ∨ (e.startSubmission job a).2.IsCrash := by
  simp only [startSubmission, hused, Bool.not_true, Bool.false_eq_true, if_false]
  split
  · exact .inr (conclude_isCrash e a _)
  · split
    · exact callBulk_stage e job a 1 _
    · exact .inr (conclude_isCrash e a _)

/-- A decision is one of these. -/
theorem Decides.cases (h : Decides e j) (hassignment : j.assignment = .submit orders)
    (hsome : orders ≠ []) (hpassage : Passage e.desk.fallback e j.number calls j.stage) :
    e.desk.fallback.bulkEnabled = false ∨ GetsItems calls e j ∨
      (∃ failure, GivesUp calls failure e j) ∨ (e.jobTurn j).2.IsCrash := by
  obtain ⟨number, a, stage, turn⟩ := j
  obtain rfl : a = .submit orders := hassignment
  obtain ⟨hbefore, hafter⟩ := h
  have hcrash (hstage : (e.jobTurn ⟨number, .submit orders, stage, turn⟩).2.isSending = true ∨
      (e.jobTurn ⟨number, .submit orders, stage, turn⟩).2.IsCrash) :
      (e.jobTurn ⟨number, .submit orders, stage, turn⟩).2.IsCrash :=
    hstage.resolve_left fun hsending => Bool.false_ne_true (hafter.symm.trans hsending)
  cases hpassage with
  | @arriving due unsent =>
    by_cases hunused : e.desk.fallback.bulkEnabled = false
    · exact .inl hunused
    · have hused : e.desk.fallback.bulkEnabled = true := by simpa using hunused
      have hturn : e.jobTurn ⟨number, .submit orders, .arriving due, turn⟩ =
          e.startSubmission number (.submit orders) := by
        simp only [jobTurn, startJob, List.isEmpty_eq_false_iff.mpr hsome, Bool.false_eq_true,
          if_false]
      exact .inr (.inr (.inr (hcrash (hturn ▸ startSubmission_stage number _ hused))))
  | @calling _ run used count first bound unsent =>
    subst count
    refine .inr ?_
    cases hfailure : e.bulkFailure? (Assignment.submit orders).orders run with
    | some failure =>
      by_cases hstraw : e.LastStraw run failure
      · exact .inr (.inl ⟨failure, run, rfl, rfl, hfailure, hstraw⟩)
      · have hturn : e.jobTurn ⟨number, .submit orders, .calling run, turn⟩ =
            (e.heardBulk number run).bulkFailed number (.submit orders) run failure :=
          bulkTurn_failed number (.submit orders) hfailure
        obtain ⟨e', _, ⟨crash, heq⟩ | ⟨_, due, heq⟩⟩ := bulkFailed_goesOn number (.submit orders)
          first fun h => hstraw ((lastStraw_heardBulk number).mp h)
        · refine .inr (.inr ?_)
          rw [hturn, heq]
          exact conclude_isCrash e' _ crash
        · rw [hturn, heq] at hafter
          cases hafter
    | none =>
      rcases bulkTurn_of_not_failed number (.submit orders) hfailure with
        ⟨items, hreply, hlength, _⟩ | heq
      · exact .inl ⟨run, items, rfl, rfl, hreply, hlength⟩
      · refine .inr (.inr ?_)
        change (e.bulkTurn number (.submit orders) run).2.IsCrash
        rw [heq]
        exact conclude_isCrash e _ _
  | @backingOff attempt deadline due used bound unsent =>
    exact .inr (.inr (.inr (hcrash (callBulk_stage e number _ _ _))))
  | joining | pausing | crashed | refused | returned => cases hbefore

theorem fallBack_not_sending (e : Engine P R) (job calls : Nat) (failure : DownstreamFailure)
    (hsome : orders ≠ []) : (e.fallBack job (.submit orders) calls failure).2.isSending = false := by
  by_cases heligible : e.desk.fallback.Eligible (Assignment.submit orders).orders.length
  · rw [fallBack_eligible e job calls _ failure heligible]
    obtain ⟨e', _, ⟨crash, heq⟩ | ⟨error, heq, _⟩ | ⟨run, heq⟩⟩ :=
      sendSingly_cases e job calls (.submit orders) hsome
    · rw [heq, conclude_eq]
      rfl
    · rw [heq, conclude_eq]
      rfl
    · rw [heq]
      rfl
  · rw [fallBack_barred e job calls _ failure heligible, conclude_eq]
    rfl

theorem GivesUp.decides (h : GivesUp calls failure e j) (hassignment : j.assignment = .submit orders)
    (hsome : orders ≠ []) (hfirst : 1 ≤ calls) : Decides e j := by
  obtain ⟨hlast, hfallback⟩ := h.turn hassignment hfirst
  obtain ⟨run, hstage, _⟩ := h
  refine ⟨by rw [hstage]; rfl, ?_⟩
  cases htriggers : e.desk.fallback.retry.triggers failure with
  | false =>
    rw [hlast htriggers, conclude_eq]
    rfl
  | true =>
    obtain ⟨e', _, heq⟩ := hfallback htriggers
    rw [heq]
    exact fallBack_not_sending e' j.number calls failure hsome

end Turn

/-! ### After the decision -/

/-- A submission that makes no more bulk calls goes on without any, and once it has ended it stays
so. -/
theorem Course.past {start e e' : Engine P R} (hbefore : Course start e) (hout : start.Outset)
    {j : Job P R} (hj : j ∈ e.jobs) {orders : List P} (hassignment : j.assignment = .submit orders)
    (hsome : orders ≠ []) (hlast : j.stage.isSending = false) (hafter : Course e e') :
    ∀ k ∈ e'.jobs, k.number = j.number → k.stage.isSending = false ∧
      e'.bulkCount j.number = e.bulkCount j.number ∧
      ∀ time ending, j.stage = .finished time ending → k.stage = .finished time ending := by
  induction hafter with
  | refl =>
    intro k hk hnumber
    have hwf := (Course.regular hbefore hout.regular).reached.wellFormed
    obtain rfl : k = j := hwf.job_unique hk hj hnumber
    exact ⟨hlast, rfl, fun _ _ h => h⟩
  | @tail e₁ e₂ hmid hmove ih =>
    have hcourse : Course start e₁ := Relation.ReflTransGen.trans hbefore hmid
    have hregular := Course.regular hcourse hout.regular
    have hwf := hregular.reached.wellFormed
    intro k hk hnumber
    cases hmove.happens hwf hregular.suited hk with
    | elsewhere same helse =>
      obtain ⟨hstage, hcount, hended⟩ := ih k same hnumber
      rw [hnumber] at helse
      exact ⟨hstage, (bulkCount_aside helse.aside).trans hcount, hended⟩
    | @worker w same member own ready next =>
      subst next
      obtain ⟨hstage, hcount, hended⟩ := ih k same hnumber
      have hsame := serveWorker_bulkCount (e := e₁) ready
      rw [own, hnumber] at hsame
      exact ⟨hstage, hsame.trans hcount, hended⟩
    | @turn i member ready moved next =>
      subst moved next
      obtain ⟨hstage, hcount, hended⟩ := ih i member hnumber
      have hsubmit : i.assignment = .submit orders := by
        rw [← hassignment]
        exact (Course.same_assignment hmid (Course.regular hbefore hout.regular).reached.wellFormed
          hj member hnumber.symm).symm
      obtain ⟨calls, _, hpassage⟩ :=
        Course.passages hcourse hout.regular hout.passages i member orders hsubmit hsome
      rw [← Course.desk hcourse hout.regular.reached.wellFormed] at hpassage
      have hnext := jobTurn_not_sending ready hsubmit hpassage hstage
      obtain ⟨more, hmore, _, hnone⟩ := jobTurn_counts ready hsubmit hsome hpassage
      refine ⟨hnext, ?_, ?_⟩
      · rw [← hcount, ← hnumber]
        change (e₁.jobTurn i).1.bulkCount i.number = _
        rw [hmore, hnone hnext, Nat.add_zero]
      · -- Whoever has ended has no turn.
        intro time ending hfinished
        rw [Job.isReady, hended time ending hfinished] at ready
        cases ready

/-- The bulk calls of a submission are those that it had made at its decision, and if that was its end it
has ended so. -/
theorem Course.after_decision {start e e' : Engine P R} (hbefore : Course start e)
    (hout : start.Outset) {j k : Job P R} (hj : j ∈ e.jobs) (hready : j.isReady e = true)
    (hdecides : Decides e j) (hafter : Course (e.serveJob j) e') (hk : k ∈ e'.jobs)
    (hnumber : j.number = k.number) {orders : List P} (hassignment : k.assignment = .submit orders)
    (hsome : orders ≠ []) :
    j.assignment = .submit orders ∧ ∃ calls, Passage e.desk.fallback e j.number calls j.stage ∧
      e'.bulkCount k.number = start.bulkCount k.number + calls ∧
      ∀ time ending, (e.jobTurn j).2 = .finished time ending → k.stage = .finished time ending := by
  have hwf := (Course.regular hbefore hout.regular).reached.wellFormed
  have hserved : Course start (e.serveJob j) := hbefore.tail (.job hj hready)
  have hsubmit : j.assignment = .submit orders := by
    rw [← hassignment]
    exact Course.same_assignment (Relation.ReflTransGen.head (.job hj hready) hafter) hwf hj hk hnumber
  obtain ⟨calls, hcount, hpassage⟩ :=
    Course.passages hbefore hout.regular hout.passages j hj orders hsubmit hsome
  rw [← Course.desk hbefore hout.regular.reached.wellFormed] at hpassage
  obtain ⟨more, hmore, _, hnone⟩ := jobTurn_counts hready hsubmit hsome hpassage
  obtain ⟨_, hsame, hended⟩ := Course.past hserved hout (self_mem_serveJob hwf hj hready) hsubmit
    hsome hdecides.2 hafter k hk hnumber.symm
  refine ⟨hsubmit, calls, hpassage, ?_, hended⟩
  rw [← hnumber, hsame, ← hcount]
  change (e.jobTurn j).1.bulkCount j.number = _
  rw [hmore, hnone hdecides.2, Nat.add_zero]

/-! ### Every submission -/

/-- Where a submission has gone that has made so many bulk calls. -/
structure Routed (start e : Engine P R) (calls : Nat) (j : Job P R) (orders : List P) : Prop where
  /-- Without bulk calls, the orders go to the executor, however many they are. -/
  unused : start.desk.fallback.bulkEnabled = false → calls = 0 ∧
    ((∃ due, j.stage = .arriving due) ∨ Took start e j.number (HandsOver orders 0))
  /-- After a final failure that calls for no other attempt, it has ended with this failure. -/
  declined : ∀ n failure, Took start e j.number (GivesUp n failure) →
    start.desk.fallback.retry.triggers failure = false → n = calls ∧
      ∃ time, j.ending? = some (time, .ok (.error (.downstream failure false)))
  /-- After a final failure that does, it has ended with this failure if there is no fallback, or none
  for so many orders. -/
  barred : ∀ n failure, Took start e j.number (GivesUp n failure) →
    start.desk.fallback.retry.triggers failure = true →
    ¬ start.desk.fallback.Eligible orders.length → n = calls ∧
      ∃ time, j.ending? = some (time, .ok (.error (.downstream failure true)))
  /-- Otherwise the orders have gone to the executor. -/
  handedOver : ∀ n failure, Took start e j.number (GivesUp n failure) →
    start.desk.fallback.retry.triggers failure = true →
    start.desk.fallback.Eligible orders.length → n = calls ∧
      Took start e j.number (HandsOver orders n)
  /-- There are no more bulk calls than the first and the retries. -/
  bound : calls ≤ 1 + start.desk.fallback.retry.maxRetries
  /-- Where bulk calls are used, a submission that has returned something has got an answer or has
  given up. -/
  decided : ∀ time returned, j.ending? = some (time, .ok returned) →
    start.desk.fallback.bulkEnabled = true → Took start e j.number (GetsItems calls) ∨
      ∃ failure, Took start e j.number (GivesUp calls failure)
  /-- With an error, nothing has been sent singly, and a failure says whether it calls for another
  attempt. -/
  refused : ∀ time error, j.ending? = some (time, .ok (.error error)) →
    (∀ x ∈ e.journal, x.event.job = j.number → x.event.isSingle = false) ∧
      ∀ failure retryable, error = .downstream failure retryable →
        retryable = start.desk.fallback.retry.triggers failure
  /-- A receipt says how many bulk calls there have been, and has one outcome for each order and a phase
  that fits them. -/
  returned : ∀ time receipt, j.ending? = some (time, .ok (.ok receipt)) → ∃ outcome,
    receipt = .submission outcome ∧ outcome.bulkAttempts = calls ∧
      outcome.result.outcomes.length = orders.length ∧ outcome.PhaseFits

theorem Passage.spends {c : FallbackConfig} {e : Engine P R} {job calls : Nat} {stage : Stage P R}
    (h : Passage c e job calls stage) : c.Spends calls := by
  cases h with
  | arriving unsent => exact ⟨Nat.zero_le _, fun _ => rfl⟩
  | calling used count first bound unsent =>
    exact ⟨bound, fun hunused => nomatch used.symm.trans hunused⟩
  | backingOff used bound unsent =>
    exact ⟨Nat.le_trans bound (Nat.le_add_left _ _),
      fun hunused => nomatch used.symm.trans hunused⟩
  | joining spent | pausing spent | crashed spent | refused spent | returned spent => exact spent

theorem Passage.arriving_of_unused {c : FallbackConfig} {e : Engine P R} {job calls : Nat}
    {stage : Stage P R} (h : Passage c e job calls stage) (hunused : c.bulkEnabled = false)
    (hsending : stage.isSending = true) : ∃ due, stage = .arriving due := by
  cases h with
  | @arriving due unsent => exact ⟨due, rfl⟩
  | calling used count first bound unsent => cases used.symm.trans hunused
  | backingOff used bound unsent => cases used.symm.trans hunused
  | joining | pausing | crashed | refused | returned => cases hsending

section Routes

variable {start e : Engine P R} {j : Job P R} {orders : List P}

/-- A submission that has given up has gone where the failure and its size send it. -/
theorem Outset.after_givingUp (hout : start.Outset) (hj : j ∈ e.jobs)
    (hassignment : j.assignment = .submit orders) (hsome : orders ≠ []) {n : Nat}
    {failure : DownstreamFailure} (h : Took start e j.number (GivesUp n failure)) :
    e.bulkCount j.number = start.bulkCount j.number + n ∧
      (start.desk.fallback.retry.triggers failure = false →
        ∃ time, j.ending? = some (time, .ok (.error (.downstream failure false)))) ∧
      (start.desk.fallback.retry.triggers failure = true →
        (¬ start.desk.fallback.Eligible orders.length →
          ∃ time, j.ending? = some (time, .ok (.error (.downstream failure true)))) ∧
        (start.desk.fallback.Eligible orders.length →
          Took start e j.number (HandsOver orders n))) := by
  obtain ⟨e₁, i, hbefore, hi, hnumber, hready, hgives, hafter⟩ := h
  have hwf := (Course.regular hbefore hout.regular).reached.wellFormed
  have hsubmit : i.assignment = .submit orders := by
    rw [← hassignment]
    exact Course.same_assignment (Relation.ReflTransGen.head (.job hi hready) hafter) hwf hi hj
      hnumber
  have hfirst : 1 ≤ n := by
    obtain ⟨run, hstage, rfl, _⟩ := hgives
    have hsound := hwf.sound i hi
    rwa [hstage] at hsound
  obtain ⟨_, calls, hpassage, hcount, hended⟩ := Course.after_decision hbefore hout hi hready
    (hgives.decides hsubmit hsome hfirst) hafter hj hnumber hassignment hsome
  have hn : n = calls := by
    obtain ⟨run, hstage, rfl, _⟩ := hgives
    rw [hstage] at hpassage
    cases hpassage with
    | calling used count first bound unsent => exact count
  have hdesk : e₁.desk = start.desk := Course.desk hbefore hout.regular.reached.wellFormed
  obtain ⟨hlast, hfallback⟩ := hgives.turn hsubmit hfirst
  rw [← hdesk]
  refine ⟨hn ▸ hcount, ?_, ?_⟩
  · intro htriggers
    have hstage := hended _ _ (by rw [hlast htriggers, conclude_eq])
    exact ⟨_, by rw [Job.ending?, hstage]⟩
  · intro htriggers
    obtain ⟨e₂, hpaper, hturn⟩ := hfallback htriggers
    have hdesk₂ : e₂.desk = e₁.desk := hpaper.frame.floor.desk.trans (heard_desk e₁ i)
    constructor
    · intro hbarred
      have hstage := hended _ _ (by
        rw [hturn, fallBack_barred e₂ i.number n _ failure (hdesk₂ ▸ hbarred), conclude_eq])
      exact ⟨_, by rw [Job.ending?, hstage]⟩
    · intro heligible
      refine ⟨e₁, i, hbefore, hi, hnumber, hready, ⟨e₂, hpaper, ?_⟩, hafter⟩
      rw [hturn, fallBack_eligible e₂ i.number n _ failure (hdesk₂ ▸ heligible)]
      rfl

/-- **Every submission goes where its settings and its last failure send it.** -/
theorem Course.routed (hcourse : Course start e) (hout : start.Outset) (hj : j ∈ e.jobs)
    (hassignment : j.assignment = .submit orders) (hsome : orders ≠ []) {calls : Nat}
    (hcalls : e.bulkCount j.number = start.bulkCount j.number + calls) :
    Routed start e calls j orders := by
  obtain ⟨n, hcount, hpassage⟩ :=
    Course.passages hcourse hout.regular hout.passages j hj orders hassignment hsome
  obtain rfl : n = calls := by omega
  have hgaveUp {m : Nat} {failure : DownstreamFailure}
      (h : Took start e j.number (GivesUp m failure)) :=
    hout.after_givingUp hj hassignment hsome h
  have hsame {m : Nat} {failure : DownstreamFailure}
      (h : Took start e j.number (GivesUp m failure)) : m = n := by
    have hcount' := (hgaveUp h).1
    omega
  refine ⟨?_, ?_, ?_, ?_, hpassage.spends.1, ?_, ?_, ?_⟩
  · intro hunused
    refine ⟨hpassage.spends.2 hunused, ?_⟩
    rcases Course.decided hcourse hout j hj with hsending | htook
    · exact .inl (hpassage.arriving_of_unused hunused hsending)
    · obtain ⟨e₁, i, hbefore, hi, hnumber, hready, hdecides, hafter⟩ := htook
      obtain ⟨hsubmit, _, hpassage₁, _⟩ := Course.after_decision hbefore hout hi hready hdecides
        hafter hj hnumber hassignment hsome
      have hunused₁ : e₁.desk.fallback.bulkEnabled = false := by
        rw [Course.desk hbefore hout.regular.reached.wellFormed]
        exact hunused
      obtain ⟨due, hstage⟩ := hpassage₁.arriving_of_unused hunused₁ hdecides.1
      exact .inr ⟨e₁, i, hbefore, hi, hnumber, hready,
        handsOver_of_unused hsubmit hsome hstage hunused₁, hafter⟩
  · intro m failure h htriggers
    exact ⟨hsame h, (hgaveUp h).2.1 htriggers⟩
  · intro m failure h htriggers hbarred
    exact ⟨hsame h, ((hgaveUp h).2.2 htriggers).1 hbarred⟩
  · intro m failure h htriggers heligible
    exact ⟨hsame h, ((hgaveUp h).2.2 htriggers).2 heligible⟩
  · intro time returned hending hused
    have hstage := ending?_eq_some hending
    rcases Course.decided hcourse hout j hj with hsending | htook
    · rw [hstage] at hsending
      cases hsending
    · obtain ⟨e₁, i, hbefore, hi, hnumber, hready, hdecides, hafter⟩ := htook
      obtain ⟨hsubmit, m, hpassage₁, hcount₁, hended⟩ := Course.after_decision hbefore hout hi hready
        hdecides hafter hj hnumber hassignment hsome
      obtain rfl : m = n := by omega
      have htook {kind : Engine P R → Job P R → Prop} (h : kind e₁ i) : Took start e j.number kind :=
        ⟨e₁, i, hbefore, hi, hnumber, hready, h, hafter⟩
      rcases hdecides.cases hsubmit hsome hpassage₁ with hunused | hitems | ⟨failure, hgives⟩ | hcrash
      · rw [Course.desk hbefore hout.regular.reached.wellFormed, hused] at hunused
        cases hunused
      · exact .inl (htook hitems)
      · exact .inr ⟨failure, htook hgives⟩
      · -- Work that has broken off has returned nothing.
        cases hturn : (e₁.jobTurn i).2 with
        | finished time' ending =>
          cases hstage.symm.trans (hended time' ending hturn)
          rw [hturn] at hcrash
          exact hcrash.elim
        | _ =>
          rw [hturn] at hcrash
          exact hcrash.elim
  · intro time error hending
    rw [ending?_eq_some hending] at hpassage
    cases hpassage with
    | refused spent unsent verdict => exact ⟨unsent, verdict⟩
  · intro time receipt hending
    have htells := (Course.regular hcourse hout.regular).reached.truthful j hj
    rw [ending?_eq_some hending] at hpassage htells
    cases hpassage with
    | @returned _ _ result spent =>
      have hreported : Reported e j.number j.assignment result := htells
      have hlength : result.outcomes.length = orders.length := by
        rw [hreported.length, hassignment]
        exact BatchTask.length_ofPayloads orders
      have hnonempty : result.outcomes ≠ [] := by
        rw [← List.length_pos_iff, hlength]
        exact List.length_pos_iff.mpr hsome
      exact ⟨_, rfl, rfl, hlength,
        SubmissionPhase.ofResult_fits _ hreported.not_pending hnonempty⟩

end Routes

theorem bulkCount_eq_since {e e' : Engine P R} {p : Event P R → Prop} (hadds : Adds p e e')
    (job : Nat) : e'.bulkCount job = e.bulkCount job +
      (e'.since e.journal.length).countP (·.event.isBulkCall job) := by
  obtain ⟨added, hjournal, _⟩ := hadds
  rw [since_eq hjournal, List.countP_reverse, bulkCount, hjournal, List.countP_append, Nat.add_comm]
  rfl

/-- **Every submission is routed as its settings say.** On every course, a submission of some orders goes
where `Routed` says: without bulk calls to the executor, after a final failure of its bulk calls to an
end with this failure or to the executor, as the failure and the size of the batch demand. If it ends
with an error, no order has been sent singly, and if it ends with a receipt, this tells the number of
its bulk calls and a phase that fits the outcomes. The same holds of what is performed, and there every
submission ends. -/
theorem submission_routed {e : Engine P R} (hrest : e.AtRest)
    (assignments : List (Nat × Assignment P)) :
    (∀ e' j orders, Course (e.addJobs assignments).unturned e' → j ∈ e'.jobs →
      j.assignment = .submit orders → orders ≠ [] →
      Routed (e.addJobs assignments).unturned e'
        ((e'.since e.journal.length).countP (·.event.isBulkCall j.number)) j orders) ∧
    ∃ done, Course (e.addJobs assignments).unturned done ∧
      (e.perform assignments).1.journal = done.journal ∧
      ∀ i wait orders, assignments[i]? = some (wait, .submit orders) → orders ≠ [] →
        ∃ j time ending, j ∈ done.jobs ∧ j.number = e.nextNumber + i ∧
          j.ending? = some (time, ending) ∧
          (e.perform assignments).2[i]? = some (some (time, ending)) ∧
          Routed (e.addJobs assignments).unturned done (((e.perform assignments).1.since
            e.journal.length).countP (·.event.isBulkCall j.number)) j orders := by
  have hout := hrest.outset assignments
  have hwf := hout.regular.reached.wellFormed
  have hjournal : (e.addJobs assignments).unturned.journal = e.journal := by
    rw [addJobs_eq]
    rfl
  have hcourses (e' : Engine P R) (j : Job P R) (orders : List P)
      (hcourse : Course (e.addJobs assignments).unturned e') (hj : j ∈ e'.jobs)
      (hassignment : j.assignment = .submit orders) (hsome : orders ≠ []) :
      Routed (e.addJobs assignments).unturned e'
        ((e'.since e.journal.length).countP (·.event.isBulkCall j.number)) j orders := by
    refine Course.routed hcourse hout hj hassignment hsome ?_
    rw [← hjournal]
    exact bulkCount_eq_since (Course.whole hcourse hwf hout.regular.suited) j.number
  refine ⟨hcourses, ?_⟩
  obtain ⟨done, hcourse, hsettled, hwf', hdone, hendings⟩ := perform_course hrest assignments
  have hsame : (e.perform assignments).1.journal = done.journal := by
    have hengines := congrArg (·.journal) hdone
    exact hengines
  refine ⟨done, hcourse, hsame, ?_⟩
  intro i wait orders hassigned hsome
  obtain ⟨j, hj, hnumber, hassignment⟩ := hrest.exists_job hcourse hassigned
  have hmem := List.mem_of_getElem? hj
  obtain ⟨time, ending, hstage⟩ := hsettled.finished hwf' hmem (by rw [hassignment]; rfl)
  have hending : j.ending? = some (time, ending) := by rw [Job.ending?, hstage]
  have hrouted := hcourses done j orders hcourse hmem hassignment hsome
  have hsince : (e.perform assignments).1.since e.journal.length = done.since e.journal.length := by
    simp only [since, hsame]
  refine ⟨j, time, ending, hmem, hnumber, hending, ?_, ?_⟩
  · rw [hendings, List.getElem?_map, hj, Option.map_some, hending]
  · rw [hsince]
    exact hrouted

def hasError : Option (Option (Nat × Ending R)) → Bool
  | some (some (_, .ok (.error _))) => true
  | _ => false

/-- Two orders are too many for the fallback, so that the failure of the bulk call is final and the
submission may be tried again. -/
theorem submission_of_two_is_barred :
    let first := Order.limit 1 0 "C-1" "ACME" .buy (.ofNat 1) (.ofNat 10)
    let second := Order.limit 2 0 "C-2" "ACME" .buy (.ofNat 1) (.ofNat 10)
    let failure : DownstreamFailure := { status := none, kind := .connectivity, message := "reset" }
    let service : Service :=
      { bulk := fun _ _ => .answers 1 (.error failure), single := fun _ _ => .hangs }
    let c : AppConfig :=
      { fallback := { maxIndividualOrders := 1, retry := { maxRetries := 0 } } }
    let e := begun (.forOrders c service (.table 0)) c.breaker c.overload none (Table.ofIds []) 0
    let result := e.perform [(0, .submit [first, second])]
    e.AtRest ∧ (result.1.since 0).countP (·.event.isBulkCall 0) = 1 ∧
      ∃ time error, result.2[0]? = some (some (time, .ok (.error error))) ∧
        (∀ x ∈ result.1.journal, x.event.job = 0 → x.event.isSingle = false) ∧
        ∀ failure' retryable, error = .downstream failure' retryable →
          retryable = c.fallback.retry.triggers failure' := by
  intro first second failure service c e result
  have hrest : e.AtRest := begun_atRest _ _ _ _ _ _
  obtain ⟨done, _, hjournal, hperformed⟩ :=
    (submission_routed hrest [(0, .submit [first, second])]).2
  obtain ⟨j, time, ending, _, hnumber, hending, hresult, hrouted⟩ :=
    hperformed 0 0 [first, second] rfl (List.cons_ne_nil _ _)
  have herror : hasError ((e.perform [(0, .submit [first, second])]).2[0]?) = true := by
    decide +kernel
  refine ⟨hrest, by decide +kernel, time, ?_⟩
  rw [hresult] at herror
  rcases ending with crash | error | receipt
  · cases herror
  · obtain ⟨hunsent, hverdict⟩ := hrouted.refused time error hending
    rw [hnumber, ← hjournal] at hunsent
    exact ⟨error, hresult, hunsent, hverdict⟩
  · cases herror

end Engine

end OrderAdmission
