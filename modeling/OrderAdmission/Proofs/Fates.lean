import OrderAdmission.Proofs.Progress

/-!
# What becomes of a task

The journal says when the call of a task began and what came back, and the desk says what the service
does with a call. `Fate` reads off both what the outcome of a task must be: a value only if the call
of this very task came back with it, no later than a task may take after it got its permit.

A worker is *diligent* when its phase agrees with what the journal says about its task, and when it
is not late: the clock has not passed the time at which it can go on. The main result is
`Move.diligent`: **every move keeps all workers diligent**.
-/
namespace OrderAdmission

variable {P R : Type}

/-! ### What comes back from a call -/

theorem Conduct.reply?_answer {α : Type} {conduct : Conduct α} {start now : Nat} {answer : α}
    (h : (conduct.since start).reply? now = some (some answer)) :
    ∃ delay, conduct = .answers delay answer ∧ start + delay ≤ now := by
  cases conduct with
  | answers delay a =>
    simp only [Conduct.since, Conduct.reply?] at h
    split at h
    · rename_i hdelay
      simp only [Option.some.injEq] at h
      exact ⟨delay, by rw [h], hdelay⟩
    · cases h
  | breaksOff delay =>
    simp only [Conduct.since, Conduct.reply?] at h
    split at h <;> cases h
  | hangs => cases h

theorem Conduct.reply?_breaksOff {α : Type} {conduct : Conduct α} {start now : Nat}
    (h : (conduct.since start).reply? now = some none) :
    ∃ delay, conduct = .breaksOff delay ∧ start + delay ≤ now := by
  cases conduct with
  | answers delay a =>
    simp only [Conduct.since, Conduct.reply?] at h
    split at h <;> cases h
  | breaksOff delay =>
    simp only [Conduct.since, Conduct.reply?] at h
    split at h
    · rename_i hdelay
      exact ⟨delay, rfl, hdelay⟩
    · cases h
  | hangs => cases h

theorem Conduct.reply?_since {α : Type} (conduct : Conduct α) (start wait : Nat) :
    (conduct.since start).reply? (start + wait) = conduct.reply? wait := by
  cases conduct <;> simp [Conduct.since, Conduct.reply?]

namespace Engine

/-! ### What the journal says -/

/-- The call of a task began at this time, and the service does this with it. -/
def Began (e : Engine P R) (job position : Nat) (payload : P) (start : Nat)
    (conduct : Conduct (Except DownstreamFailure R)) : Prop :=
  (∃ inFlight, ⟨start, .singleCalled job position payload inFlight⟩ ∈ e.exchanges) ∧
    ∃ call, conduct = e.desk.single call payload

/-- At this time the call of a task came back, or was cut off. -/
def CameBack (e : Engine P R) (job position : Nat) (answer : Option (Except DownstreamFailure R))
    (stop : Nat) : Prop :=
  ⟨stop, .singleEnded job position answer⟩ ∈ e.exchanges

/-- The call of a task broke off before it was cut off. -/
def BrokeOff (e : Engine P R) (job position : Nat) (payload : P) : Prop :=
  ∃ start delay, e.Began job position payload start (.breaksOff delay) ∧
    delay ≤ e.desk.executor.taskTimeout

/-- What the outcome of a task can be. -/
inductive Fate (e : Engine P R) (job position : Nat) (payload : P) : Outcome R → Prop where
  /-- The call came back with a value in time. -/
  | succeeded {start delay : Nat} {value : R}
      (began : e.Began job position payload start (.answers delay (.ok value)))
      (inTime : delay ≤ e.desk.executor.taskTimeout)
      (back : e.CameBack job position (some (.ok value)) (start + delay)) :
      Fate e job position payload (.success value)
  /-- The call came back with a failure in time. -/
  | failed {start delay : Nat} {failure : DownstreamFailure}
      (began : e.Began job position payload start (.answers delay (.error failure)))
      (inTime : delay ≤ e.desk.executor.taskTimeout)
      (back : e.CameBack job position (some (.error failure)) (start + delay)) :
      Fate e job position payload (.failure failure.text)
  /-- Nothing had come back when the task had taken as long as it may. -/
  | timedOut {start : Nat} {conduct : Conduct (Except DownstreamFailure R)}
      (began : e.Began job position payload start conduct)
      (late : conduct.reply? e.desk.executor.taskTimeout = none)
      (back : e.CameBack job position none (start + e.desk.executor.taskTimeout)) :
      Fate e job position payload (.failure (taskTimeoutReason e.desk.executor.taskTimeout))
  /-- No permit was to be had in time. -/
  | turnedAway : Fate e job position payload (.failure permitTimeoutReason)
  /-- The call broke off. -/
  | interrupted (broke : e.BrokeOff job position payload) :
      Fate e job position payload (.failure interruptedReason)
  /-- The chunk had taken as long as it may. -/
  | cutOff : Fate e job position payload (.failure chunkTimeoutReason)

theorem Fate.not_pending {e : Engine P R} {job position : Nat} {payload : P} {outcome : Outcome R}
    (h : Fate e job position payload outcome) : outcome ≠ .pending := by
  cases h <;> simp

/-- The same desk, and a journal that has at most grown. -/
structure Grown (e e' : Engine P R) : Prop where
  desk : e'.desk = e.desk
  exchanges : ∀ x ∈ e.exchanges, x ∈ e'.exchanges

theorem Grown.trans {e₁ e₂ e₃ : Engine P R} (h₁ : Grown e₁ e₂) (h₂ : Grown e₂ e₃) : Grown e₁ e₃ :=
  ⟨h₂.desk.trans h₁.desk, fun x hx => h₂.exchanges x (h₁.exchanges x hx)⟩

theorem SameFloor.grown {e e' : Engine P R} (h : SameFloor e e') : Grown e e' :=
  ⟨h.desk, fun _ hx => h.exchanges ▸ hx⟩

section Grown

variable {e e' : Engine P R} {job position : Nat} {payload : P}

theorem Began.mono {start : Nat} {conduct : Conduct (Except DownstreamFailure R)}
    (h : e.Began job position payload start conduct) (hgrown : Grown e e') :
    e'.Began job position payload start conduct := by
  obtain ⟨⟨inFlight, hentry⟩, hcall⟩ := h
  refine ⟨⟨inFlight, hgrown.exchanges _ hentry⟩, ?_⟩
  rw [hgrown.desk]
  exact hcall

theorem BrokeOff.mono (h : e.BrokeOff job position payload) (hgrown : Grown e e') :
    e'.BrokeOff job position payload := by
  obtain ⟨start, delay, hbegan, hdelay⟩ := h
  refine ⟨start, delay, hbegan.mono hgrown, ?_⟩
  rw [hgrown.desk]
  exact hdelay

theorem Fate.mono {outcome : Outcome R} (h : Fate e job position payload outcome)
    (hgrown : Grown e e') : Fate e' job position payload outcome := by
  cases h with
  | succeeded began inTime back =>
    exact Fate.succeeded (began.mono hgrown) (hgrown.desk ▸ inTime) (hgrown.exchanges _ back)
  | failed began inTime back =>
    exact Fate.failed (began.mono hgrown) (hgrown.desk ▸ inTime) (hgrown.exchanges _ back)
  | timedOut began late back =>
    rw [← hgrown.desk] at late back ⊢
    exact Fate.timedOut (began.mono hgrown) late (hgrown.exchanges _ back)
  | turnedAway => exact Fate.turnedAway
  | interrupted broke => exact Fate.interrupted (broke.mono hgrown)
  | cutOff => exact Fate.cutOff

end Grown

/-! ### Diligent workers -/

/-- What the journal says about the task of a worker in this phase. -/
def PhaseTold (e : Engine P R) (w : Worker P R) : WorkerPhase R → Prop
  | .working call cutoff => ∃ start conduct,
      e.Began w.job w.position w.payload start conduct ∧ call = conduct.since start ∧
        cutoff = start + e.desk.executor.taskTimeout ∧ e.now ≤ earlier call.due? cutoff
  | .reported _ outcome | .ended (some outcome) => Fate e w.job w.position w.payload outcome
  | .ended none => e.BrokeOff w.job w.position w.payload
  | _ => True

/-- Every worker is in the phase that the journal says, and none is late. -/
def Diligent (e : Engine P R) : Prop := ∀ w ∈ e.workers, e.PhaseTold w w.phase

theorem PhaseTold.mono {e e' : Engine P R} {w : Worker P R} {phase : WorkerPhase R}
    (h : e.PhaseTold w phase) (hgrown : Grown e e') (hnow : e'.now = e.now) :
    e'.PhaseTold w phase := by
  cases phase with
  | working call cutoff =>
    obtain ⟨start, conduct, hbegan, hcall, hcutoff, hdue⟩ := h
    refine ⟨start, conduct, hbegan.mono hgrown, hcall, ?_, ?_⟩
    · rw [hgrown.desk]
      exact hcutoff
    · rw [hnow]
      exact hdue
  | reported permit outcome => exact Fate.mono h hgrown
  | ended outcome =>
    cases outcome with
    | some outcome => exact Fate.mono h hgrown
    | none => exact BrokeOff.mono h hgrown
  | fresh => trivial
  | queued limit => trivial

theorem startCall_told (e : Engine P R) (w : Worker P R) :
    (e.startCall w).1.PhaseTold w (e.startCall w).2 := by
  refine ⟨e.now, e.desk.single e.singleCalls w.payload, ?_, rfl, rfl, ?_⟩
  · exact ⟨⟨e.limiter.inFlight, List.mem_cons_self⟩, e.singleCalls, rfl⟩
  · simp only [startCall, note]
    cases e.desk.single e.singleCalls w.payload with
    | answers delay answer =>
      simp only [Conduct.since, Conduct.due?, earlier]
      omega
    | breaksOff delay =>
      simp only [Conduct.since, Conduct.due?, earlier]
      omega
    | hangs =>
      simp only [Conduct.since, Conduct.due?, earlier]
      omega

theorem endCall_grown (e : Engine P R) (w : Worker P R)
    (answer : Option (Except DownstreamFailure R)) (outcome : Outcome R) (r : Report) :
    Grown e (e.endCall w answer outcome r).1 :=
  ⟨rfl, fun _ hx => List.mem_cons_of_mem _ hx⟩

theorem endCall_back (e : Engine P R) (w : Worker P R)
    (answer : Option (Except DownstreamFailure R)) (outcome : Outcome R) (r : Report) :
    (e.endCall w answer outcome r).1.CameBack w.job w.position answer e.now :=
  List.mem_cons_self

theorem workerTurn_told {e : Engine P R} {w : Worker P R} (h : e.PhaseTold w w.phase)
    (hready : w.isReady e.limiter e.now = true) :
    (e.workerTurn w).1.PhaseTold w (e.workerTurn w).2 := by
  obtain ⟨number, job, position, index, payload, phase, turn⟩ := w
  cases phase with
  | fresh =>
    simp only [workerTurn]
    split
    · exact startCall_told _ _
    · trivial
  | queued limit =>
    simp only [workerTurn]
    split
    · exact startCall_told _ _
    · exact Fate.turnedAway
  | reported permit outcome => exact Fate.mono h ⟨rfl, fun _ hx => hx⟩
  | ended outcome => cases hready
  | working call cutoff =>
    obtain ⟨start, conduct, hbegan, rfl, rfl, hdue⟩ := h
    have hgrown (answer : Option (Except DownstreamFailure R)) (outcome : Outcome R) (r : Report) :=
      endCall_grown e ⟨number, job, position, index, payload,
        .working (conduct.since start) (start + e.desk.executor.taskTimeout), turn⟩
        answer outcome r
    have hback (answer : Option (Except DownstreamFailure R)) (outcome : Outcome R) (r : Report) :=
      endCall_back e ⟨number, job, position, index, payload,
        .working (conduct.since start) (start + e.desk.executor.taskTimeout), turn⟩
        answer outcome r
    -- The worker is served no later than it can go on, so what is there came just now.
    simp only [workerTurn]
    split
    · rename_i value hreply
      obtain ⟨delay, rfl, hdelay⟩ := Conduct.reply?_answer hreply
      simp only [Conduct.since, Conduct.due?, earlier] at hdue
      have hnow : e.now = start + delay := by omega
      have inTime : delay ≤ e.desk.executor.taskTimeout := by omega
      exact Fate.succeeded (hbegan.mono (hgrown _ _ _)) inTime
        (hnow ▸ hback _ _ _)
    · rename_i failure hreply
      obtain ⟨delay, rfl, hdelay⟩ := Conduct.reply?_answer hreply
      simp only [Conduct.since, Conduct.due?, earlier] at hdue
      have hnow : e.now = start + delay := by omega
      have inTime : delay ≤ e.desk.executor.taskTimeout := by omega
      exact Fate.failed (hbegan.mono (hgrown _ _ _)) inTime
        (hnow ▸ hback _ _ _)
    · rename_i hreply
      obtain ⟨delay, rfl, hdelay⟩ := Conduct.reply?_breaksOff hreply
      simp only [Conduct.since, Conduct.due?, earlier] at hdue
      have hdelay : delay ≤ e.desk.executor.taskTimeout := by omega
      exact ⟨start, delay, hbegan, hdelay⟩
    · rename_i hreply
      have hcutoff : start + e.desk.executor.taskTimeout = e.now := by
        have hlate : start + e.desk.executor.taskTimeout ≤ e.now := by
          have harrived := Conduct.arrived_eq_isSome (conduct.since start) e.now
          rw [hreply] at harrived
          simpa [Worker.isReady, harrived] using hready
        have hle : earlier (conduct.since start).due? (start + e.desk.executor.taskTimeout) ≤
            start + e.desk.executor.taskTimeout := by
          unfold earlier
          split <;> omega
        omega
      rw [← hcutoff, Conduct.reply?_since] at hreply
      exact Fate.timedOut (hbegan.mono (hgrown _ _ _)) hreply (hcutoff ▸ hback _ _ _)

/-! ### Moves -/

theorem workerTurn_grown (e : Engine P R) (w : Worker P R) : Grown e (e.workerTurn w).1 := by
  obtain ⟨added, hadded, _⟩ := workerTurn_exchanges e w
  refine ⟨(workerTurn_house e w).desk, ?_⟩
  intro x hx
  rw [hadded]
  exact List.mem_append_right _ hx

theorem JobTurn.grown {e : Engine P R} {j : Job P R} {result : Engine P R × Stage P R}
    (h : JobTurn e j result) : Grown e result.1 := by
  obtain ⟨added, hadded, _⟩ := heard_exchanges e j
  refine ⟨h.sameJobs.desk, ?_⟩
  intro x hx
  rw [h.exchanges, hadded]
  exact List.mem_append_right _ hx

theorem phase_of_mem_spawnWorkers {job : Nat} {tasks : List (BatchTask P)} {number position : Nat}
    {w : Worker P R} (hw : w ∈ spawnWorkers job tasks number position) : w.phase = .fresh := by
  induction tasks generalizing number position with
  | nil => cases hw
  | cons t rest ih =>
    rcases List.mem_cons.mp hw with rfl | hrest
    · rfl
    · exact ih hrest

/-- **Every move keeps all workers diligent.** -/
theorem Move.diligent {e e' : Engine P R} (hmove : Move e e') (hwf : e.WellFormed)
    (h : e.Diligent) : e'.Diligent := by
  cases hmove with
  | @worker w member ready =>
    obtain ⟨before, after, hold, hnew⟩ := serveWorker_workers hwf member
    have hserved : Grown (e.workerTurn w).1 (e.serveWorker w) := ⟨rfl, fun _ hx => hx⟩
    have hgrown := (workerTurn_grown e w).trans hserved
    have hnow : (e.serveWorker w).now = e.now := (workerTurn_house e w).now
    have hsame (v : Worker P R) (hv : v ∈ e.workers) : (e.serveWorker w).PhaseTold v v.phase :=
      (h v hv).mono hgrown hnow
    intro v hv
    rw [hnew, List.mem_append, List.mem_cons] at hv
    rcases hv with hv | rfl | hv
    · exact hsame v (by rw [hold]; exact List.mem_append_left _ hv)
    · have htold := (workerTurn_told (h w member) ready).mono hserved rfl
      generalize (e.workerTurn w).2 = phase at htold ⊢
      exact htold
    · exact hsame v (by
        rw [hold]
        exact List.mem_append_right _ (List.mem_cons_of_mem _ hv))
  | @job j member ready =>
    have hturn := jobTurn_turn e j (hwf.sound j member) ready
    obtain ⟨kept, tasks, position, hstaff⟩ := hturn.staffing hwf member
    have hworkers : (e.serveJob j).workers =
        kept ++ spawnWorkers j.number tasks e.nextNumber position := hstaff.workers
    intro w hw
    rw [hworkers, List.mem_append] at hw
    rcases hw with hw | hw
    · have hserved : Grown (e.jobTurn j).1 (e.serveJob j) := ⟨rfl, fun _ hx => hx⟩
      exact (h w (hstaff.sublist.subset hw)).mono (hturn.grown.trans hserved) hturn.sameJobs.now
    · rw [phase_of_mem_spawnWorkers hw]
      trivial
  | @tick time quiet due =>
    intro w hw
    have hphase := h w hw
    have htime := (firstTurn_spec due).2.1 w hw
    have hticked : Grown e { e with now := time } := ⟨rfl, fun _ hx => hx⟩
    obtain ⟨number, job, position, index, payload, phase, turn⟩ := w
    cases phase with
    | working call cutoff =>
      obtain ⟨start, conduct, hbegan, hcall, hcutoff, _⟩ := hphase
      exact ⟨start, conduct, hbegan, hcall, hcutoff, htime _ rfl⟩
    | reported permit outcome => exact Fate.mono hphase hticked
    | ended outcome =>
      cases outcome with
      | some outcome => exact Fate.mono hphase hticked
      | none => exact BrokeOff.mono hphase hticked
    | fresh => trivial
    | queued limit => trivial

end Engine

end OrderAdmission
