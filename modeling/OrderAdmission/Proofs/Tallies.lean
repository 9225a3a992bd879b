import OrderAdmission.Engine.Journal
import OrderAdmission.Proofs.Routes
import OrderAdmission.Proofs.Telling

/-!
# The tally of a batch

A batch is reported on from three sides: its tasks tell the breaker how they ended, what is left open
at the end of a chunk is reported for them, and a task that is cut off between its report and its end
has told the breaker of an outcome that its batch never learns. Such a report is *overruled*: the task
gets another outcome, with a report of its own.

`Tallied` balances the reports in the journal against the outcomes that have been noted, the workers
whose outcome waits to be noted, and the overruled reports; and it knows where each answer of the
service has gone. Every worker has a seat of its own, an open place before the end of the chunk, so
that nothing that has been noted is written over.
-/
namespace OrderAdmission

variable {P R : Type}

/-- What the breaker has been told on behalf of a job, the latest first. -/
def reportsOf (job : Nat) (journal : List (Entry P R)) : List Report :=
  journal.filterMap fun x => match x.event with
    | .reported k r _ => if k = job then some r else none
    | _ => none

/-- What tasks of a job have told the breaker that were cut off before they ended, the latest first. -/
def overruled (job : Nat) (journal : List (Entry P R)) : List Report :=
  journal.filterMap fun x => match x.event with
    | .cutOff k _ told => if k = job then told else none
    | _ => none

theorem reportsOf_append (job : Nat) (xs ys : List (Entry P R)) :
    reportsOf job (xs ++ ys) = reportsOf job xs ++ reportsOf job ys :=
  List.filterMap_append

theorem overruled_append (job : Nat) (xs ys : List (Entry P R)) :
    overruled job (xs ++ ys) = overruled job xs ++ overruled job ys :=
  List.filterMap_append

theorem reportsOf_eq_nil {job : Nat} {entries : List (Entry P R)}
    (h : ∀ x ∈ entries, ∀ r wall, x.event ≠ .reported job r wall) : reportsOf job entries = [] := by
  rw [reportsOf, List.filterMap_eq_nil_iff]
  intro x hx
  split
  · rename_i k r wall hevent
    rw [if_neg]
    rintro rfl
    exact h x hx r wall hevent
  · rfl

theorem overruled_eq_nil {job : Nat} {entries : List (Entry P R)}
    (h : ∀ x ∈ entries, ∀ q r, x.event ≠ .cutOff job q (some r)) : overruled job entries = [] := by
  rw [overruled, List.filterMap_eq_nil_iff]
  intro x hx
  split
  · rename_i k q told hevent
    split
    · rename_i hk
      subst hk
      cases told with
      | none => rfl
      | some r => exact absurd hevent (h x hx q r)
    · rfl
  · rfl

theorem perm_set_pending {outcomes : List (Outcome R)} {i : Nat} {o : Outcome R} {r : Report}
    (hopen : outcomes[i]? = some .pending) (hreport : o.report? = some r) :
    ((outcomes.set i o).filterMap (·.report?)).Perm (r :: outcomes.filterMap (·.report?)) := by
  induction outcomes generalizing i with
  | nil => cases hopen
  | cons first rest ih =>
    cases i with
    | zero =>
      obtain rfl : first = .pending := Option.some.inj hopen
      rw [List.set_cons_zero, List.filterMap_cons, hreport]
      exact List.Perm.refl _
    | succ i =>
      rw [List.set_cons_succ, List.filterMap_cons, List.filterMap_cons]
      cases first.report? with
      | none => exact ih hopen
      | some r' => exact ((ih hopen).cons r').trans (List.Perm.swap r r' _)

namespace Worker

/-- The outcome of the task of a worker, from its report on. -/
def verdict? (w : Worker P R) : Option (Outcome R) :=
  match w.phase with
  | .reported _ outcome => some outcome
  | .ended outcome => outcome
  | _ => none

/-- What a worker has told the breaker, whether or not it has ended. -/
def tells? (w : Worker P R) : Option Report := w.verdict?.bind (·.report?)

theorem verdict?_of_hasEnded {w : Worker P R} (h : w.hasEnded = true) : w.verdict? = w.outcome? := by
  obtain ⟨number, job, position, index, payload, phase, turn⟩ := w
  cases phase with
  | ended outcome => rfl
  | _ => cases h

theorem tells?_of_not_hasEnded {w : Worker P R} (h : w.hasEnded = false) : w.tells? = w.told? := by
  obtain ⟨number, job, position, index, payload, phase, turn⟩ := w
  cases phase with
  | ended outcome => cases h
  | _ => rfl

end Worker

namespace Engine

theorem since_eq {e e' : Engine P R} {added : List (Entry P R)}
    (h : e'.journal = added ++ e.journal) : e'.since e.journal.length = added.reverse := by
  simp [since, h]

theorem mem_workersOf {e : Engine P R} {job : Nat} {w : Worker P R} :
    w ∈ e.workersOf job ↔ w ∈ e.workers ∧ w.job = job := by
  simp [workersOf]

/-- The call of a task has come back with this acknowledgement. -/
def Answered (e : Engine P R) (job position : Nat) (value : R) : Prop :=
  ∃ stop, (⟨stop, .singleEnded job position (some (.ok value))⟩ : Entry P R) ∈ e.journal

/-- A task of the job has been cut off since the journal `start`. -/
def CutOff (e : Engine P R) (job : Nat) (start : List (Entry P R)) (q : Nat) : Prop :=
  ∃ added, e.journal = added ++ start ∧ ∃ x ∈ added, ∃ told, x.event = .cutOff job q told

theorem not_cutOff_self (e : Engine P R) (job q : Nat) : ¬ e.CutOff job e.journal q := by
  rintro ⟨added, hjournal, x, hx, _⟩
  rw [List.self_eq_append_left.mp hjournal] at hx
  cases hx

/-- The answer of a task has gone where it belongs, is held by its worker, or came to nothing because
the task was cut off. -/
def Landed (e : Engine P R) (job : Nat) (start : List (Entry P R)) (q : Nat) (t : BatchTask P)
    (outcomes : List (Outcome R)) (value : R) : Prop :=
  outcomes[t.index]? = some (.success value) ∨
    (∃ w ∈ e.workersOf job, w.position = q ∧ w.verdict? = some (.success value)) ∨
    e.CutOff job start q

/-- The account of a batch that began with the journal `start`: the reports in its name, the answers to
its tasks, those that were cut off, and the seats of those at work. -/
structure Tallied (e : Engine P R) (job : Nat) (tasks : List (BatchTask P))
    (start : List (Entry P R)) (run : BatchRun P R) : Prop where
  grown : start <:+ e.journal
  reports : (reportsOf job e.journal ++ overruled job start).Perm
    (run.outcomes.filterMap (·.report?) ++ (e.workersOf job).filterMap (·.tells?) ++
      (overruled job e.journal ++ reportsOf job start))
  answers : ∀ q t value, tasks[q]? = some t → e.Answered job q value →
    Landed e job start q t run.outcomes value
  cut : ∀ q t, tasks[q]? = some t → e.CutOff job start q →
    run.outcomes[t.index]? = some (.failure chunkTimeoutReason)
  seat : ∀ w ∈ e.workersOf job, isMissing run.outcomes w.index = true ∧ w.position < run.position
  apart : ∀ w ∈ e.workersOf job, ∀ v ∈ e.workersOf job, w.position = v.position →
    w.number = v.number
  later : ∀ q t, run.position ≤ q → tasks[q]? = some t → isMissing run.outcomes t.index = true

section Frames

variable {e e' : Engine P R} {job : Nat}

theorem Adds.reportsOf {p : Event P R → Prop} (h : Adds p e e')
    (hnone : ∀ event, p event → ∀ r wall, event ≠ .reported job r wall) :
    reportsOf job e'.journal = reportsOf job e.journal := by
  obtain ⟨added, hjournal, hp⟩ := h
  rw [hjournal, reportsOf_append, reportsOf_eq_nil fun x hx => hnone _ (hp x hx), List.nil_append]

theorem Adds.overruled {p : Event P R → Prop} (h : Adds p e e')
    (hnone : ∀ event, p event → ∀ q r, event ≠ .cutOff job q (some r)) :
    overruled job e'.journal = overruled job e.journal := by
  obtain ⟨added, hjournal, hp⟩ := h
  rw [hjournal, overruled_append, overruled_eq_nil fun x hx => hnone _ (hp x hx), List.nil_append]

theorem Adds.answered {p : Event P R → Prop} (h : Adds p e e')
    (hnone : ∀ event, p event → ∀ q value, event ≠ .singleEnded job q (some (.ok value)))
    (q : Nat) (value : R) : e'.Answered job q value ↔ e.Answered job q value := by
  constructor
  · rintro ⟨stop, hmem⟩
    rcases h.mem hmem with hmem | hmem
    · exact ⟨stop, hmem⟩
    · exact absurd rfl (hnone _ hmem q value)
  · rintro ⟨stop, hmem⟩
    exact ⟨stop, h.old hmem⟩

theorem Adds.suffix {p : Event P R → Prop} {start : List (Entry P R)} (h : Adds p e e')
    (hgrown : start <:+ e.journal) : start <:+ e'.journal := by
  obtain ⟨added, hjournal, _⟩ := h
  rw [hjournal]
  exact hgrown.trans (List.suffix_append added e.journal)

theorem CutOff.mono {p : Event P R → Prop} {start : List (Entry P R)} {q : Nat}
    (h : e.CutOff job start q) (hadds : Adds p e e') : e'.CutOff job start q := by
  obtain ⟨old, hold, x, hx, hcut⟩ := h
  obtain ⟨added, hjournal, _⟩ := hadds
  refine ⟨added ++ old, ?_, x, List.mem_append_right added hx, hcut⟩
  rw [hjournal, hold, List.append_assoc]

/-- Whoever is cut off has been so before, or it is among what has been added. -/
theorem Adds.cutOff {p : Event P R → Prop} {start : List (Entry P R)} {q : Nat} (h : Adds p e e')
    (hgrown : start <:+ e.journal) (hcut : e'.CutOff job start q) :
    e.CutOff job start q ∨ ∃ told, p (.cutOff job q told) := by
  obtain ⟨added, hjournal, hp⟩ := h
  obtain ⟨old, hold⟩ := hgrown
  obtain ⟨all, hall, x, hx, told, hevent⟩ := hcut
  obtain rfl : all = added ++ old := by
    refine List.append_cancel_right (hall.symm.trans ?_)
    rw [hjournal, ← hold, List.append_assoc]
  rcases List.mem_append.mp hx with hnew | hbefore
  · exact Or.inr ⟨told, hevent ▸ hp x hnew⟩
  · exact Or.inl ⟨old, hold.symm, x, hbefore, told, hevent⟩

theorem Landed.mono {p : Event P R → Prop} {start : List (Entry P R)} {q : Nat} {t : BatchTask P}
    {outcomes : List (Outcome R)} {value : R} (h : Landed e job start q t outcomes value)
    (hadds : Adds p e e') (hworkers : ∀ w ∈ e.workersOf job, w.verdict? ≠ none →
      ∃ w' ∈ e'.workersOf job, w'.position = w.position ∧ w'.verdict? = w.verdict?) :
    Landed e' job start q t outcomes value := by
  rcases h with hnoted | ⟨w, hw, hposition, hverdict⟩ | hcut
  · exact Or.inl hnoted
  · obtain ⟨w', hw', hplace, hsame⟩ := hworkers w hw (by simp [hverdict])
    exact Or.inr (Or.inl ⟨w', hw', hplace.trans hposition, hsame.trans hverdict⟩)
  · exact Or.inr (Or.inr (hcut.mono hadds))

/-- An event that is no verdict on a task of the job, no report of one, and does not cut one off. -/
def Silent (job : Nat) (event : Event P R) : Prop :=
  (∀ r wall, event ≠ .reported job r wall) ∧
    (∀ q value, event ≠ .singleEnded job q (some (.ok value))) ∧
    ∀ q told, event ≠ .cutOff job q told

theorem Adds.overruled_of_silent (h : Adds (Silent job) e e') :
    OrderAdmission.overruled job e'.journal = OrderAdmission.overruled job e.journal :=
  h.overruled fun _ hp q r => hp.2.2 q (some r)

theorem Adds.cutOff_of_silent {start : List (Entry P R)} {q : Nat} (h : Adds (Silent job) e e')
    (hgrown : start <:+ e.journal) (hcut : e'.CutOff job start q) : e.CutOff job start q := by
  refine (h.cutOff hgrown hcut).resolve_right ?_
  rintro ⟨told, hsilent⟩
  exact hsilent.2.2 q told rfl

theorem silent_of_other {event : Event P R} (h : event.job ≠ job) : Silent job event := by
  refine ⟨?_, ?_, ?_⟩
  · rintro r wall rfl
    exact h rfl
  · rintro q value rfl
    exact h rfl
  · rintro q r rfl
    exact h rfl

theorem Stores.silent {k : Nat} (h : Stores k e e') : Adds (Silent job) e e' := by
  refine h.journal.mono ?_
  rintro event ⟨call, rfl⟩
  exact ⟨by simp, by simp, by simp⟩

theorem Elsewhere.workersOf (h : Elsewhere job e e') (hwf : e.WellFormed) (hwf' : e'.WellFormed) :
    (e'.workersOf job).Perm (e.workersOf job) := by
  have hnodup {e₁ : Engine P R} (hwf₁ : e₁.WellFormed) : (e₁.workersOf job).Nodup :=
    hwf₁.workers_nodup.of_map.filter _
  rw [List.perm_ext_iff_of_nodup (hnodup hwf') (hnodup hwf)]
  intro w
  rw [mem_workersOf, mem_workersOf]
  exact and_congr_left fun hjob => h.workers w hjob

/-- What leaves the workers of the job alone and says nothing of their tasks keeps the tally. -/
theorem Tallied.frame {tasks : List (BatchTask P)} {start : List (Entry P R)} {run : BatchRun P R}
    (h : Tallied e job tasks start run) (hworkers : (e'.workersOf job).Perm (e.workersOf job))
    (hsilent : Adds (Silent job) e e') : Tallied e' job tasks start run := by
  refine ⟨hsilent.suffix h.grown, ?_, ?_, ?_, ?_, ?_, h.later⟩
  · rw [hsilent.reportsOf fun _ hp => hp.1, hsilent.overruled_of_silent]
    exact h.reports.trans (((hworkers.symm.filterMap _).append_left _).append_right _)
  · intro q t value ht hanswered
    refine (h.answers q t value ht ((hsilent.answered (fun _ hp => hp.2.1) q value).mp
      hanswered)).mono hsilent ?_
    exact fun w hw _ => ⟨w, hworkers.mem_iff.mpr hw, rfl, rfl⟩
  · exact fun q t ht hcut => h.cut q t ht (hsilent.cutOff_of_silent h.grown hcut)
  · exact fun w hw => h.seat w (hworkers.mem_iff.mp hw)
  · exact fun w hw v hv => h.apart w (hworkers.mem_iff.mp hw) v (hworkers.mem_iff.mp hv)

end Frames

/-! ### The beginning of a chunk -/

theorem map_position_spawnWorkers (job : Nat) (tasks : List (BatchTask P)) (number position : Nat) :
    (spawnWorkers (R := R) job tasks number position).map (·.position) =
      List.range' position tasks.length := by
  induction tasks generalizing number position with
  | nil => rfl
  | cons t rest ih =>
    rw [List.length_cons, List.range'_succ]
    exact congrArg (position :: ·) (ih (number + 1) (position + 1))

theorem workersOf_eq_nil {e : Engine P R} {job : Nat} (hnone : ∀ w ∈ e.workers, w.job ≠ job) :
    e.workersOf job = [] := by
  rw [List.eq_nil_iff_forall_not_mem]
  intro w hw
  exact hnone w (mem_workersOf.mp hw).1 (mem_workersOf.mp hw).2

/-- Before its first chunk, nothing has been done for a batch. -/
theorem whole_tallied {e : Engine P R} {job : Nat} {tasks : List (BatchTask P)}
    (hvalid : checkTasks tasks = .ok ()) (hnone : ∀ w ∈ e.workers, w.job ≠ job)
    (hunanswered : ∀ q value, ¬ e.Answered job q value) :
    Tallied e job tasks e.journal (.whole tasks) := by
  have hworkers := workersOf_eq_nil hnone
  have hempty : (BatchRun.whole (R := R) tasks).outcomes.filterMap (·.report?) = [] := by
    simp [BatchRun.whole, Outcome.report?]
  refine ⟨List.suffix_refl _, ?_, ?_, ?_, ?_, ?_, ?_⟩
  · rw [hworkers, hempty]
    exact List.perm_append_comm
  · intro q t value _ hanswered
    exact absurd hanswered (hunanswered q value)
  · intro q t _ hcut
    exact absurd hcut (e.not_cutOff_self job q)
  · intro w hw
    rw [hworkers] at hw
    cases hw
  · intro w hw
    rw [hworkers] at hw
    cases hw
  · intro q t _ ht
    refine isMissing_iff.mpr ?_
    have hrange := (checkTasks_ok hvalid).1 t (List.mem_of_getElem? ht)
    simp [BatchRun.whole, hrange]

/-- A chunk that begins gives each of its tasks a seat. -/
theorem openChunk_tallied {e : Engine P R} {job : Nat} {tasks : List (BatchTask P)}
    {start : List (Entry P R)} {run : BatchRun P R} (attempts : Nat)
    (hremaining : run.remaining = tasks.drop run.position)
    (hnone : ∀ w ∈ e.workers, w.job ≠ job) (h : Tallied e job tasks start run) :
    ∃ run', (e.openChunk job attempts run).2 = .joining attempts run' ∧
      Tallied (e.openChunk job attempts run).1 job tasks start run' := by
  refine ⟨_, rfl, ?_⟩
  have hnew : (e.openChunk job attempts run).1.workersOf job =
      spawnWorkers job (run.remaining.take e.chunkSize) e.nextNumber run.position := by
    have hold := workersOf_eq_nil hnone
    have hown : (spawnWorkers (R := R) job (run.remaining.take e.chunkSize) e.nextNumber
        run.position).filter (fun w => w.job == job) =
        spawnWorkers job (run.remaining.take e.chunkSize) e.nextNumber run.position := by
      rw [List.filter_eq_self]
      intro w hw
      simpa using job_of_mem_spawnWorkers hw
    rw [workersOf] at hold
    simp only [workersOf, openChunk, List.filter_append, hold, hown, List.nil_append]
  have hnothing : ((e.openChunk job attempts run).1.workersOf job).filterMap (·.tells?) = [] := by
    rw [hnew, List.filterMap_eq_nil_iff]
    intro w hw
    simp [Worker.tells?, Worker.verdict?, phase_of_mem_spawnWorkers hw]
  refine ⟨h.grown, ?_, ?_, h.cut, ?_, ?_, ?_⟩
  · have hreports := h.reports
    rw [workersOf_eq_nil hnone] at hreports
    rw [hnothing]
    exact hreports
  · intro q t value ht hanswered
    refine (h.answers q t value ht hanswered).mono (p := fun _ => False) (.nothing rfl) ?_
    intro w hw
    rw [workersOf_eq_nil hnone] at hw
    cases hw
  · intro w hw
    rw [hnew] at hw
    obtain ⟨i, htask, hposition⟩ := mem_spawnWorkers hw
    have hlength : i < (run.remaining.take e.chunkSize).length :=
      (List.getElem?_eq_some_iff.mp htask).1
    have hplace : tasks[run.position + i]? = some ⟨w.index, w.payload⟩ := by
      rw [List.getElem?_take] at htask
      split at htask
      · rwa [hremaining, List.getElem?_drop] at htask
      · cases htask
    refine ⟨h.later _ _ (Nat.le_add_right _ _) hplace, ?_⟩
    simp only [hposition]
    omega
  · intro w hw v hv hsame
    rw [hnew] at hw hv
    have hnodup : ((spawnWorkers (R := R) job (run.remaining.take e.chunkSize) e.nextNumber
        run.position).map (·.position)).Nodup := by
      rw [map_position_spawnWorkers]
      exact List.nodup_range'
    rw [List.inj_on_of_nodup_map hnodup hw hv hsame]
  · intro q t hq ht
    exact h.later q t (Nat.le_trans (Nat.le_add_right _ _) hq) ht

/-! ### Turns of a worker -/

/-- Two workers of a job never have the same place. -/
theorem Tallied.eq_of_index {e : Engine P R} {job : Nat} {tasks : List (BatchTask P)}
    {start : List (Entry P R)} {run : BatchRun P R} (hwf : e.WellFormed)
    (hbooked : Booked e job tasks run) (h : Tallied e job tasks start run)
    {v w : Worker P R} (hv : v ∈ e.workersOf job) (hw : w ∈ e.workersOf job)
    (hindex : v.index = w.index) : v = w := by
  obtain ⟨hvmem, hvjob⟩ := mem_workersOf.mp hv
  obtain ⟨hwmem, hwjob⟩ := mem_workersOf.mp hw
  have hposition : v.position = w.position :=
    (position_unique hbooked.valid (hbooked.staff v hvmem hvjob) (hbooked.staff w hwmem hwjob)
      hindex).1
  exact List.inj_on_of_nodup_map hwf.workers_nodup hvmem hwmem (h.apart v hv w hw hposition)

/-- A turn of a worker comes to a verdict on its task and reports it, and cuts nobody off. If an answer has
come back in it, the verdict is this answer. -/
structure Judges (e : Engine P R) (w : Worker P R) (result : Engine P R × WorkerPhase R) (o : Outcome R)
    (r : Report) : Prop where
  before : w.verdict? = none
  after : { w with phase := result.2 }.verdict? = some o
  report : o.report? = some r
  reports : reportsOf w.job result.1.journal = r :: reportsOf w.job e.journal
  cuts : Adds (fun event => ∀ q told, event ≠ .cutOff w.job q told) e result.1
  answers : ∀ q value, result.1.Answered w.job q value →
    e.Answered w.job q value ∨ (q = w.position ∧ o = .success value)

theorem endCall_judges (e : Engine P R) {w : Worker P R}
    {answer : Option (Except DownstreamFailure R)} {o : Outcome R} {r : Report}
    (hbefore : w.verdict? = none) (hreport : o.report? = some r)
    (hverdict : ∀ value, answer = some (.ok value) → o = .success value) :
    Judges e w (e.endCall w answer o r) o r := by
  refine ⟨hbefore, rfl, hreport, ?_, ?_, ?_⟩
  · simp [reportsOf, endCall, Engine.report, note, setBreaker]
  · refine ⟨[_, _], rfl, ?_⟩
    simp
  · rintro q value ⟨stop, hmem⟩
    rcases List.mem_cons.mp hmem with hnew | hmem
    · cases hnew
    · rcases List.mem_cons.mp hmem with hnew | hold
      · cases hnew
        exact Or.inr ⟨rfl, hverdict value rfl⟩
      · exact Or.inl ⟨stop, hold⟩

/-- Whoever does not get a permit in time leaves the queue and reports a failure. -/
theorem report_judges {e e₁ : Engine P R} (hjournal : e₁.journal = e.journal) {w : Worker P R}
    {permit : Bool} {reason : String} (hbefore : w.verdict? = none) :
    Judges e w (e₁.report w.job .failure, .reported permit (.failure reason)) (.failure reason)
      .failure := by
  have hreported : (e₁.report w.job .failure).journal =
      ⟨e₁.now, .reported w.job .failure e₁.wall⟩ :: e.journal := by
    rw [← hjournal]
    rfl
  refine ⟨hbefore, rfl, rfl, ?_, .one hreported (by simp), ?_⟩
  · simp [reportsOf, hreported]
  · rintro q value ⟨stop, hmem⟩
    rw [hreported] at hmem
    rcases List.mem_cons.mp hmem with hnew | hold
    · cases hnew
    · exact Or.inl ⟨stop, hold⟩

/-- A turn of a worker comes to no verdict and says nothing, or comes to a verdict and reports it. -/
theorem workerTurn_verdict (e : Engine P R) {w : Worker P R}
    (hready : w.isReady e.limiter e.now = true) :
    ({ w with phase := (e.workerTurn w).2 }.verdict? = w.verdict? ∧
      Adds (Silent w.job) e (e.workerTurn w).1) ∨ ∃ o r, Judges e w (e.workerTurn w) o r := by
  obtain ⟨number, job, position, index, payload, phase, turn⟩ := w
  have hcalled {event : Event P R} {inFlight : Nat}
      (hevent : event = .singleCalled job position payload inFlight) : Silent job event := by
    subst hevent
    exact ⟨by simp, by simp, by simp⟩
  cases phase with
  | fresh =>
    simp only [workerTurn]
    split
    · exact Or.inl ⟨rfl, .one rfl (hcalled rfl)⟩
    · exact Or.inl ⟨rfl, .nothing rfl⟩
  | queued limit =>
    simp only [workerTurn]
    split
    · exact Or.inl ⟨rfl, .one rfl (hcalled rfl)⟩
    · exact Or.inr ⟨_, _, report_judges (by rfl) rfl⟩
  | working call cutoff =>
    simp only [workerTurn]
    split
    · exact Or.inr ⟨_, _, endCall_judges e rfl rfl (by simp)⟩
    · exact Or.inr ⟨_, _, endCall_judges e rfl rfl (by simp)⟩
    · exact Or.inl ⟨rfl, .nothing rfl⟩
    · exact Or.inr ⟨_, _, endCall_judges e rfl rfl (by simp)⟩
  | reported permit outcome => exact Or.inl ⟨rfl, .nothing rfl⟩
  | ended outcome => cases hready

theorem mem_collect {e : Engine P R} (hwf : e.WellFormed) {v w : Worker P R}
    (hw : w ∈ e.workers) : v ∈ (e.collect w).workers ↔ v ∈ e.workers ∧ v ≠ w := by
  have hcollect : v ∈ (e.collect w).workers ↔ v ∈ e.workers ∧ v.number ≠ w.number := by
    simp [collect]
  rw [hcollect]
  refine and_congr_right fun hv => not_congr ⟨?_, ?_⟩
  · exact List.inj_on_of_nodup_map hwf.workers_nodup hv hw
  · rintro rfl
    rfl

section Workers

variable {e : Engine P R} {w : Worker P R}

theorem workersOf_perm (hwf : e.WellFormed) (hw : w ∈ e.workers) :
    (e.workersOf w.job).Perm (w :: (e.collect w).workersOf w.job) := by
  obtain ⟨before, after, hold, hnew⟩ := filter_others (·.number) hwf.workers_nodup hw
  have hothers : (e.collect w).workers = before ++ after := hnew
  rw [workersOf, workersOf, hothers, hold]
  refine (List.perm_middle.filter _).trans ?_
  rw [List.filter_cons_of_pos (by simp)]

theorem workersOf_serveWorker (hwf : e.WellFormed) (hw : w ∈ e.workers) :
    ((e.serveWorker w).workersOf w.job).Perm
      ({ w with phase := (e.workerTurn w).2 } :: (e.collect w).workersOf w.job) := by
  obtain ⟨before, after, hold, hnew⟩ := serveWorker_workers hwf hw
  have hperm := workersOf_perm hwf hw
  rw [workersOf, hold] at hperm
  have hothers : ((before ++ after).filter fun v => v.job == w.job).Perm
      ((e.collect w).workersOf w.job) := by
    refine (List.perm_cons w).mp (List.Perm.trans ?_ hperm)
    refine List.Perm.trans ?_ (List.perm_middle.symm.filter _)
    rw [List.filter_cons_of_pos (by simp)]
  rw [workersOf, hnew]
  refine (List.perm_middle.filter _).trans ?_
  rw [List.filter_cons_of_pos (by simp)]
  exact hothers.cons _

end Workers

section ServeWorker

variable {e : Engine P R} {w : Worker P R} {tasks : List (BatchTask P)} {start : List (Entry P R)}
  {run : BatchRun P R}

/-- A turn of a worker moves nobody to another seat. -/
theorem Tallied.seats_serveWorker (h : Tallied e w.job tasks start run)
    (hwf : e.WellFormed) (hw : w ∈ e.workers) :
    (∀ v ∈ (e.serveWorker w).workersOf w.job,
      isMissing run.outcomes v.index = true ∧ v.position < run.position) ∧
    ∀ v ∈ (e.serveWorker w).workersOf w.job, ∀ u ∈ (e.serveWorker w).workersOf w.job,
      v.position = u.position → v.number = u.number := by
  have hperm := workersOf_perm hwf hw
  have hold {v : Worker P R} (hv : v ∈ (e.serveWorker w).workersOf w.job) :
      ∃ u ∈ e.workersOf w.job,
        u.position = v.position ∧ u.index = v.index ∧ u.number = v.number := by
    rcases List.mem_cons.mp ((workersOf_serveWorker hwf hw).mem_iff.mp hv) with rfl | hother
    · exact ⟨w, hperm.mem_iff.mpr List.mem_cons_self, rfl, rfl, rfl⟩
    · exact ⟨v, hperm.mem_iff.mpr (List.mem_cons_of_mem w hother), rfl, rfl, rfl⟩
  constructor
  · intro v hv
    obtain ⟨u, hu, hsame, hindex, _⟩ := hold hv
    rw [← hindex, ← hsame]
    exact h.seat u hu
  · intro v hv u hu hsame
    obtain ⟨v', hv', hvsame, _, hvnumber⟩ := hold hv
    obtain ⟨u', hu', husame, _, hunumber⟩ := hold hu
    rw [← hvnumber, ← hunumber]
    exact h.apart v' hv' u' hu' (hvsame.trans (hsame.trans husame.symm))

theorem verdict?_serveWorker (hwf : e.WellFormed) (hw : w ∈ e.workers)
    (hkeeps : w.verdict? ≠ none → { w with phase := (e.workerTurn w).2 }.verdict? = w.verdict?) :
    ∀ v ∈ e.workersOf w.job, v.verdict? ≠ none → ∃ v' ∈ (e.serveWorker w).workersOf w.job,
      v'.position = v.position ∧ v'.verdict? = v.verdict? := by
  have hserved := workersOf_serveWorker hwf hw
  intro v hv hverdict
  rcases List.mem_cons.mp ((workersOf_perm hwf hw).mem_iff.mp hv) with rfl | hother
  · exact ⟨_, hserved.mem_iff.mpr List.mem_cons_self, rfl, hkeeps hverdict⟩
  · exact ⟨v, hserved.mem_iff.mpr (List.mem_cons_of_mem _ hother), rfl, rfl⟩

/-- **A turn of a worker keeps the tally.** -/
theorem serveWorker_tallied {job : Nat} (hwf : e.WellFormed) (hbooked : Booked e job tasks run)
    (h : Tallied e job tasks start run) (hw : w ∈ e.workers) (hjob : w.job = job)
    (hready : w.isReady e.limiter e.now = true) :
    Tallied (e.serveWorker w) job tasks start run := by
  subst hjob
  have hperm := (workersOf_perm hwf hw).filterMap (·.tells?)
  have hserved := (workersOf_serveWorker hwf hw).filterMap (·.tells?)
  obtain ⟨hseat, hapart⟩ := h.seats_serveWorker hwf hw
  rcases workerTurn_verdict e hready with ⟨hstill, hsilent⟩ | ⟨o, r, hjudges⟩
  · have hsilent' : Adds (Silent w.job) e (e.serveWorker w) := hsilent
    have hsame : ({ w with phase := (e.workerTurn w).2 }).tells? = w.tells? :=
      congrArg (·.bind (·.report?)) hstill
    refine ⟨hsilent'.suffix h.grown, ?_, ?_, ?_, hseat, hapart, h.later⟩
    · have hworkers : (((e.serveWorker w).workersOf w.job).filterMap (·.tells?)).Perm
          ((e.workersOf w.job).filterMap (·.tells?)) := by
        refine hserved.trans (List.Perm.trans ?_ hperm.symm)
        rw [List.filterMap_cons, List.filterMap_cons, hsame]
      rw [hsilent'.reportsOf fun _ hp => hp.1, hsilent'.overruled_of_silent]
      exact h.reports.trans ((hworkers.symm.append_left _).append_right _)
    · intro q t value ht hanswered
      exact (h.answers q t value ht ((hsilent'.answered (fun _ hp => hp.2.1) q value).mp
        hanswered)).mono hsilent' (verdict?_serveWorker hwf hw fun _ => hstill)
    · exact fun q t ht hcut => h.cut q t ht (hsilent'.cutOff_of_silent h.grown hcut)
  · have hbefore : w.tells? = none := by rw [Worker.tells?, hjudges.before]; rfl
    have hafter : ({ w with phase := (e.workerTurn w).2 }).tells? = some r := by
      rw [Worker.tells?, hjudges.after]
      exact hjudges.report
    have hreports : reportsOf w.job (e.serveWorker w).journal = _ := hjudges.reports
    have hcuts : Adds (fun event => ∀ q told, event ≠ .cutOff w.job q told) e (e.serveWorker w) :=
      hjudges.cuts
    have hoverruled := hcuts.overruled fun _ hp q r => hp q (some r)
    refine ⟨hcuts.suffix h.grown, ?_, ?_, ?_, hseat, hapart, h.later⟩
    · rw [List.filterMap_cons_none hbefore] at hperm
      rw [List.filterMap_cons_some hafter] at hserved
      rw [hreports, hoverruled, List.cons_append]
      refine (h.reports.cons r).trans (List.Perm.trans ?_
        ((hserved.symm.append_left _).append_right _))
      rw [← List.cons_append]
      refine List.Perm.append_right _ ?_
      exact List.perm_middle.symm.trans (((hperm.cons r)).append_left _)
    · intro q t value ht hanswered
      rcases hjudges.answers q value hanswered with hold | ⟨rfl, rfl⟩
      · exact (h.answers q t value ht hold).mono hcuts
          (verdict?_serveWorker hwf hw fun hsome => absurd hjudges.before hsome)
      · exact Or.inr (Or.inl ⟨_, (workersOf_serveWorker hwf hw).mem_iff.mpr List.mem_cons_self, rfl,
          hjudges.after⟩)
    · intro q t ht hcut
      refine h.cut q t ht ((hcuts.cutOff h.grown hcut).resolve_right ?_)
      rintro ⟨told, hnone⟩
      exact hnone q told rfl

end ServeWorker

/-! ### Noting an outcome -/

theorem getElem?_noteOutcome_ne (run : BatchRun P R) {index i : Nat} (hne : index ≠ i)
    (outcome : Option (Outcome R)) :
    (run.noteOutcome index outcome).outcomes[i]? = run.outcomes[i]? := by
  cases outcome with
  | none => rfl
  | some o => exact List.getElem?_set_ne hne

theorem getElem?_noteOutcome_self {run : BatchRun P R} {index : Nat}
    (hlength : index < run.outcomes.length) (o : Outcome R) :
    (run.noteOutcome index (some o)).outcomes[index]? = some o :=
  List.getElem?_set_self hlength

section Collect

variable {e : Engine P R} {job : Nat} {tasks : List (BatchTask P)} {start : List (Entry P R)}
  {run : BatchRun P R} {w : Worker P R}

/-- The report of a worker that has ended becomes that of a noted outcome. -/
theorem perm_noteOutcome (hopen : run.outcomes[w.index]? = some .pending)
    (hended : w.hasEnded = true) (htold : ∀ o, w.outcome? = some o → o ≠ .pending)
    {others : List (Worker P R)} :
    ((run.noteOutcome w.index w.outcome?).outcomes.filterMap (·.report?) ++
        others.filterMap (·.tells?)).Perm
      (run.outcomes.filterMap (·.report?) ++ (w :: others).filterMap (·.tells?)) := by
  have hverdict := Worker.verdict?_of_hasEnded hended
  cases houtcome : w.outcome? with
  | none =>
    have hnothing : w.tells? = none := by rw [Worker.tells?, hverdict, houtcome]; rfl
    rw [List.filterMap_cons_none hnothing]
    exact List.Perm.refl _
  | some o =>
    obtain ⟨r, hreport⟩ : ∃ r, o.report? = some r := by
      cases o with
      | pending => exact absurd rfl (htold _ houtcome)
      | success value => exact ⟨_, rfl⟩
      | failure reason => exact ⟨_, rfl⟩
    have htells : w.tells? = some r := by rw [Worker.tells?, hverdict, houtcome]; exact hreport
    rw [List.filterMap_cons_some htells]
    exact ((perm_set_pending hopen hreport).append_right _).trans List.perm_middle.symm

/-- **To note an outcome keeps the tally.** -/
theorem collect_tallied (hwf : e.WellFormed) (hbooked : Booked e job tasks run)
    (h : Tallied e job tasks start run) (hw : w ∈ e.workers) (hjob : w.job = job)
    (hended : w.hasEnded = true) (htold : ∀ o, w.outcome? = some o → o ≠ .pending) :
    Tallied (e.collect w) job tasks start (run.noteOutcome w.index w.outcome?) := by
  subst hjob
  have hown : w ∈ e.workersOf w.job := mem_workersOf.mpr ⟨hw, rfl⟩
  have hperm := workersOf_perm hwf hw
  have hold {v : Worker P R} (hv : v ∈ (e.collect w).workersOf w.job) : v ∈ e.workersOf w.job :=
    hperm.mem_iff.mpr (List.mem_cons_of_mem w hv)
  have hplace := isMissing_iff.mp (h.seat w hown).1
  obtain ⟨hposition, _, _⟩ := noteOutcome_position run w.index w.outcome?
  have hmissing {i : Nat} (hne : w.index ≠ i) (h : isMissing run.outcomes i = true) :
      isMissing (run.noteOutcome w.index w.outcome?).outcomes i = true :=
    isMissing_iff.mpr ((getElem?_noteOutcome_ne run hne _).trans (isMissing_iff.mp h))
  -- A place that is filled is not that of a worker.
  have hfilled {i : Nat} {o : Outcome R} (ho : run.outcomes[i]? = some o) (hsome : o ≠ .pending) :
      (run.noteOutcome w.index w.outcome?).outcomes[i]? = some o := by
    rw [getElem?_noteOutcome_ne run, ho]
    rintro rfl
    exact hsome (Option.some.inj (ho.symm.trans hplace))
  refine ⟨h.grown, ?_, ?_, ?_, ?_, ?_, ?_⟩
  · refine h.reports.trans (List.Perm.append_right _ ?_)
    exact ((hperm.filterMap _).append_left _).trans (perm_noteOutcome hplace hended htold).symm
  · intro q t value ht hanswered
    rcases h.answers q t value ht hanswered with hnoted | ⟨v, hv, hq, hverdict⟩ | hcut
    · exact Or.inl (hfilled hnoted (by simp))
    · rcases List.mem_cons.mp (hperm.mem_iff.mp hv) with rfl | hother
      · obtain rfl : t = ⟨v.index, v.payload⟩ :=
          Option.some.inj (ht.symm.trans (hq ▸ hbooked.staff v hw rfl))
        rw [Worker.verdict?_of_hasEnded hended] at hverdict
        refine Or.inl ?_
        rw [hverdict]
        exact getElem?_noteOutcome_self (List.getElem?_eq_some_iff.mp hplace).1 _
      · exact Or.inr (Or.inl ⟨v, hother, hq, hverdict⟩)
    · exact Or.inr (Or.inr hcut)
  · exact fun q t ht hcut => hfilled (h.cut q t ht hcut) (by simp)
  · intro v hv
    obtain ⟨hvopen, hvseated⟩ := h.seat v (hold hv)
    refine ⟨hmissing ?_ hvopen, hposition.symm ▸ hvseated⟩
    intro hindex
    have hsame := h.eq_of_index hwf hbooked (hold hv) hown hindex.symm
    exact ((mem_collect hwf hw).mp (mem_workersOf.mp hv).1).2 hsame
  · exact fun v hv u hu => h.apart v (hold hv) u (hold hu)
  · intro q t hq ht
    rw [hposition] at hq
    refine hmissing ?_ (h.later q t hq ht)
    -- The worker has the place of a task that has begun.
    intro hindex
    have hseated := (h.seat w hown).2
    have hsame := (position_unique hbooked.valid (hbooked.staff w hw rfl) ht hindex).1
    omega

end Collect

/-! ### Settling a chunk -/

/-- Whatever a chunk that is settled has left open is a failure, and reported as one. -/
theorem settleChunk_reports {e : Engine P R} {job : Nat} (reason : String) (chunk : List Nat)
    {outcomes : List (Outcome R)} {kept lost : List Report}
    (h : (reportsOf job e.journal ++ lost).Perm (outcomes.filterMap (·.report?) ++ kept)) :
    (reportsOf job (e.settleChunk job reason chunk outcomes).1.journal ++ lost).Perm
      ((e.settleChunk job reason chunk outcomes).2.filterMap (·.report?) ++ kept) := by
  induction chunk generalizing e outcomes with
  | nil => exact h
  | cons index rest ih =>
    simp only [settleChunk]
    split
    · rename_i hmissing
      refine ih ?_
      have htold : reportsOf job (e.report job .failure).journal =
          .failure :: reportsOf job e.journal := by
        simp [reportsOf, report, note, setBreaker]
      rw [htold, List.cons_append]
      exact (h.cons _).trans
        ((perm_set_pending (isMissing_iff.mp hmissing) rfl).symm.append_right kept)
    · exact ih h

/-- Workers that are cut off have their reports overruled. -/
theorem overruled_dismissAll {e : Engine P R} {job : Nat}
    (hnone : (e.workersOf job).find? (·.hasEnded) = none) :
    (overruled job (e.dismissAll job).journal).Perm
      ((e.workersOf job).filterMap (·.tells?) ++ overruled job e.journal) := by
  have hcut : (overruled job (e.cutOffs (e.workersOf job))).Perm
      ((e.workersOf job).filterMap (·.tells?)) := by
    rw [overruled, cutOffs, List.filterMap_reverse, List.filterMap_map]
    refine (List.reverse_perm _).trans (List.Perm.of_eq (List.filterMap_congr ?_))
    intro w hw
    have hstill : w.hasEnded = false := by simpa using List.find?_eq_none.mp hnone w hw
    simp [(mem_workersOf.mp hw).2, Worker.tells?_of_not_hasEnded hstill]
  have hjournal : (e.dismissAll job).journal = e.cutOffs (e.workersOf job) ++ e.journal := rfl
  rw [hjournal, overruled_append]
  exact hcut.append_right _

theorem reportsOf_dismissAll (e : Engine P R) (job : Nat) :
    reportsOf job (e.dismissAll job).journal = reportsOf job e.journal := by
  refine (dismissAll_journal e job).reportsOf ?_
  rintro event ⟨position, told, rfl⟩ r wall hevent
  cases hevent

/-- When a chunk is settled, the reports of those who are cut off are overruled, and what is left open is
reported as a failure. -/
theorem Tallied.reports_settled {e : Engine P R} {job : Nat} {tasks : List (BatchTask P)}
    {start : List (Entry P R)} {run : BatchRun P R} (h : Tallied e job tasks start run)
    (hnone : (e.workersOf job).find? (·.hasEnded) = none) :
    (reportsOf job (e.settled job run).1.journal ++ overruled job start).Perm
      ((e.settled job run).2.filterMap (·.report?) ++
        (overruled job (e.settled job run).1.journal ++ reportsOf job start)) := by
  have hclosed : Adds (fun event => ∃ r wall, event = .reported job r wall) (e.dismissAll job)
      (e.settled job run).1 := (settleChunk_paper (e.dismissAll job) job _ _ _).frame.journal
  have hkept : overruled job (e.settled job run).1.journal =
      overruled job (e.dismissAll job).journal := by
    refine hclosed.overruled ?_
    rintro event ⟨r, wall, rfl⟩ q r' hevent
    cases hevent
  have hreports : (reportsOf job (e.dismissAll job).journal ++ overruled job start).Perm
      (run.outcomes.filterMap (·.report?) ++ ((e.workersOf job).filterMap (·.tells?) ++
        (overruled job e.journal ++ reportsOf job start))) := by
    rw [reportsOf_dismissAll, ← List.append_assoc]
    exact h.reports
  refine (settleChunk_reports (e.closingReason job) run.chunk hreports).trans
    (List.Perm.append_left _ ?_)
  rw [hkept, ← List.append_assoc]
  exact (overruled_dismissAll hnone).symm.append_right _

/-- Whoever is cut off when a chunk is settled gets the reason for an outcome. -/
theorem Tallied.getElem?_settled {e : Engine P R} {job : Nat} {tasks : List (BatchTask P)}
    {start : List (Entry P R)} {run : BatchRun P R} (hbooked : Booked e job tasks run)
    (h : Tallied e job tasks start run) {w : Worker P R} (hw : w ∈ e.workersOf job) {t : BatchTask P}
    (ht : tasks[w.position]? = some t) :
    (e.settled job run).2[t.index]? = some (.failure chunkTimeoutReason) := by
  obtain ⟨hmem, hjob⟩ := mem_workersOf.mp hw
  obtain ⟨hopen, hseated⟩ := h.seat w hw
  have hstaff := hbooked.staff w hmem hjob
  obtain rfl : t = ⟨w.index, w.payload⟩ := Option.some.inj (ht.symm.trans hstaff)
  have hchunk := (hbooked.covered w.position _ hseated hstaff hopen).1
  have hsome : (e.workersOf job).isEmpty = false :=
    List.isEmpty_eq_false_iff.mpr (List.ne_nil_of_mem hw)
  have hplace : (e.settled job run).2[w.index]? = _ :=
    getElem?_settleChunk (e.dismissAll job) job (e.closingReason job) run.chunk run.outcomes w.index
  rw [hplace, if_pos ⟨hchunk, hopen⟩, closingReason, hsome]
  rfl

/-- The settling of a chunk cuts off those who are still at work. -/
theorem cutOff_settled {e : Engine P R} {job : Nat} {start : List (Entry P R)} {q : Nat}
    (hgrown : start <:+ e.journal) (run : BatchRun P R) :
    (e.settled job run).1.CutOff job start q ↔
      e.CutOff job start q ∨ ∃ w ∈ e.workersOf job, w.position = q := by
  have hclosed : Adds (fun event => ∃ r wall, event = .reported job r wall) (e.dismissAll job)
      (e.settled job run).1 := (settleChunk_paper (e.dismissAll job) job _ _ _).frame.journal
  have hdismissed : Adds (fun event => ∃ w ∈ e.workersOf job, event = .cutOff job w.position w.told?) e
      (e.dismissAll job) := by
    refine ⟨e.cutOffs (e.workersOf job), rfl, ?_⟩
    intro x hx
    obtain ⟨w, hw, rfl⟩ := List.mem_map.mp (List.mem_reverse.mp hx)
    exact ⟨w, hw, by rw [(mem_workersOf.mp hw).2]⟩
  constructor
  · intro hcut
    rcases hclosed.cutOff (hdismissed.suffix hgrown) hcut with hcut | ⟨_, _, _, hevent⟩
    · refine (hdismissed.cutOff hgrown hcut).imp id ?_
      rintro ⟨told, w, hw, hevent⟩
      exact ⟨w, hw, (Event.cutOff.inj hevent).2.1.symm⟩
    · cases hevent
  · rintro (hcut | ⟨w, hw, rfl⟩)
    · exact (hcut.mono hdismissed).mono hclosed
    · refine CutOff.mono ?_ hclosed
      obtain ⟨old, hold⟩ := hgrown
      refine ⟨e.cutOffs (e.workersOf job) ++ old, ?_, ⟨e.now, .cutOff job w.position w.told?⟩, ?_,
        w.told?, rfl⟩
      · rw [List.append_assoc, hold]
        rfl
      · refine List.mem_append_left old (List.mem_reverse.mpr (List.mem_map.mpr ⟨w, hw, ?_⟩))
        rw [(mem_workersOf.mp hw).2]

/-- **To settle a chunk keeps the tally**, and leaves nobody at work. -/
theorem settled_tallied {e : Engine P R} {job : Nat} {tasks : List (BatchTask P)}
    {start : List (Entry P R)} {run : BatchRun P R}
    (hbooked : Booked e job tasks run) (h : Tallied e job tasks start run)
    (hnone : (e.workersOf job).find? (·.hasEnded) = none) :
    Tallied (e.settled job run).1 job tasks start
      { run with outcomes := (e.settled job run).2 } := by
  have hplace (k : Nat) : (e.settled job run).2[k]? = _ :=
    getElem?_settleChunk (e.dismissAll job) job (e.closingReason job) run.chunk run.outcomes k
  have hgone := workersOf_eq_nil (settled_gone e job run)
  have hpaper := settled_journal e job run
  have hfilled {i : Nat} {o : Outcome R} (ho : run.outcomes[i]? = some o) (hsome : o ≠ .pending) :
      (e.settled job run).2[i]? = some o := by
    rw [hplace, if_neg]
    · exact ho
    · rintro ⟨_, hopen⟩
      exact hsome (Option.some.inj (ho.symm.trans (isMissing_iff.mp hopen)))
  refine ⟨hpaper.suffix h.grown, ?_, ?_, ?_, ?_, ?_, ?_⟩
  · rw [hgone, List.filterMap_nil, List.append_nil]
    exact h.reports_settled hnone
  · intro q t value ht hanswered
    have hanswered' : e.Answered job q value := by
      refine (hpaper.answered ?_ q value).mp hanswered
      rintro event (⟨position, told, rfl⟩ | ⟨r, wall, rfl⟩) q value hevent
      · cases hevent
      · cases hevent
    rcases h.answers q t value ht hanswered' with hnoted | ⟨w, hw, hq, _⟩ | hcut
    · exact Or.inl (hfilled hnoted (by simp))
    · exact Or.inr (Or.inr ((cutOff_settled h.grown run).mpr (.inr ⟨w, hw, hq⟩)))
    · exact Or.inr (Or.inr (hcut.mono hpaper))
  · intro q t ht hcut
    rcases (cutOff_settled h.grown run).mp hcut with hbefore | ⟨w, hw, rfl⟩
    · exact hfilled (h.cut q t ht hbefore) (by simp)
    · exact h.getElem?_settled hbooked hw ht
  · intro w hw
    rw [hgone] at hw
    cases hw
  · intro w hw
    rw [hgone] at hw
    cases hw
  · intro q t hq ht
    have hopen := h.later q t hq ht
    rw [isMissing_iff, hplace, if_neg]
    · exact isMissing_iff.mp hopen
    · rintro ⟨hchunk, _⟩
      obtain ⟨q', t', hq', ht', hindex⟩ := hbooked.chunk t.index hchunk
      have hsame := (position_unique hbooked.valid ht' ht hindex).1
      have hq : run.position ≤ q := hq
      omega

/-! ### From the beginning of a batch to its result -/

/-- A result in which each outcome has been reported once, beside the reports that were overruled, and
each answer has its place if and only if its task was not cut off. -/
structure Told (e : Engine P R) (job : Nat) (tasks : List (BatchTask P)) (start : List (Entry P R))
    (r : BatchResult R) : Prop where
  grown : start <:+ e.journal
  length : r.outcomes.length = tasks.length
  closed : ∀ o ∈ r.outcomes, o ≠ .pending
  reports : (reportsOf job e.journal ++ overruled job start).Perm
    (r.outcomes.filterMap (·.report?) ++ (overruled job e.journal ++ reportsOf job start))
  answers : ∀ q t value, tasks[q]? = some t → e.Answered job q value →
    r.outcomes[t.index]? = some (.success value) ∨ e.CutOff job start q
  cut : ∀ q t, tasks[q]? = some t → e.CutOff job start q →
    r.outcomes[t.index]? = some (.failure chunkTimeoutReason)

theorem Told.frame {e e' : Engine P R} {job : Nat} {tasks : List (BatchTask P)}
    {start : List (Entry P R)} {r : BatchResult R} (h : Told e job tasks start r)
    (hsilent : Adds (Silent job) e e') : Told e' job tasks start r := by
  refine ⟨hsilent.suffix h.grown, h.length, h.closed, ?_, ?_, ?_⟩
  · rw [hsilent.reportsOf fun _ hp => hp.1, hsilent.overruled_of_silent]
    exact h.reports
  · intro q t value ht hanswered
    exact (h.answers q t value ht ((hsilent.answered (fun _ hp => hp.2.1) q value).mp
      hanswered)).imp id fun hcut => hcut.mono hsilent
  · exact fun q t ht hcut => h.cut q t ht (hsilent.cutOff_of_silent h.grown hcut)

/-- After its last chunk, a batch has told everything. -/
theorem Tallied.told {e : Engine P R} {job : Nat} {tasks : List (BatchTask P)}
    {start : List (Entry P R)} {run : BatchRun P R} (hclosed : Closed e job tasks run)
    (hlast : run.remaining = []) (hnone : ∀ w ∈ e.workers, w.job ≠ job)
    (h : Tallied e job tasks start run) :
    Told e job tasks start { outcomes := run.outcomes } := by
  have hworkers := workersOf_eq_nil hnone
  refine ⟨h.grown, hclosed.noted.length, ?_, ?_, ?_, h.cut⟩
  · rintro o ho rfl
    obtain ⟨i, hi⟩ := List.getElem?_of_mem ho
    have hrange : i < tasks.length := hclosed.noted.length ▸ (List.getElem?_eq_some_iff.mp hi).1
    obtain ⟨q, t, ht, rfl⟩ := exists_task hclosed.valid hrange
    have hposition : q < run.position := by
      have hq := (List.getElem?_eq_some_iff.mp ht).1
      have hdrop := hclosed.remaining.symm.trans hlast
      rw [List.drop_eq_nil_iff] at hdrop
      omega
    have hfilled := hclosed.done q t hposition ht
    rw [isMissing_iff.mpr hi] at hfilled
    cases hfilled
  · have hreports := h.reports
    rwa [hworkers, List.filterMap_nil, List.append_nil] at hreports
  · intro q t value ht hanswered
    refine (h.answers q t value ht hanswered).imp id fun hrest => hrest.resolve_left ?_
    rintro ⟨w, hw, _⟩
    rw [hworkers] at hw
    cases hw

end Engine

/-- The result of a batch in a receipt. -/
def Receipt.result? : Receipt R → Option (BatchResult R)
  | .batch r => some r
  | .submission outcome => some outcome.result
  | _ => none

/-- A job at this stage has come to this result: it still writes statuses, or has returned the result,
or has ended without a receipt. -/
def Stage.Shows (r : BatchResult R) : Stage P R → Prop
  | .writing result _ => result = some r
  | .finished _ (.ok (.ok receipt)) => receipt.result? = some r
  | .finished _ _ => True
  | _ => False

namespace Engine

theorem conclude_shows {e : Engine P R} {a : Assignment P} {ending : Ending R} (r : BatchResult R)
    (h : isRefusal ending = true) : (e.conclude a ending).2.Shows r := by
  rw [conclude_eq]
  rcases ending with crash | error | receipt
  · trivial
  · trivial
  · cases h

theorem followWrite_shows (a : Assignment P) (r : BatchResult R)
    (turn : Engine P R × WriteTurn) : (followWrite a (some r) turn).2.Shows r := by
  rcases turn with ⟨e, run | crash | error | rows⟩
  · rfl
  · exact conclude_shows r rfl
  · exact conclude_shows r rfl
  · simp only [followWrite, conclude_eq]
    rfl

theorem answered_shows (e : Engine P R) (job : Nat) (a : Assignment P) (attempts : Nat)
    (r : BatchResult R) : (e.answered job a attempts r).2.Shows r := by
  cases a with
  | process orders =>
    simp only [answered]
    rw [placeOrders_eq]
    split
    · exact conclude_shows r rfl
    · exact followWrite_shows _ r _
  | _ =>
    simp only [answered, conclude_eq]
    rfl

/-- What is accounted for by a job whose tasks the breaker has admitted, begun with the journal `start`. -/
inductive Accounts (e : Engine P R) (job : Nat) (a : Assignment P) (start : List (Entry P R)) :
    Stage P R → Prop where
  | joining {attempts : Nat} {run : BatchRun P R} (tallied : Tallied e job a.tasks start run) :
      Accounts e job a start (.joining attempts run)
  | pausing {attempts due : Nat} {run : BatchRun P R} (tallied : Tallied e job a.tasks start run) :
      Accounts e job a start (.pausing attempts run due)
  | told {stage : Stage P R} {r : BatchResult R} (shows : stage.Shows r)
      (told : Told e job a.tasks start r) : Accounts e job a start stage

/-- What others do leaves the account of a job alone. -/
theorem Accounts.frame {e e' : Engine P R} {job : Nat} {a : Assignment P} {start : List (Entry P R)}
    {stage : Stage P R} (h : Accounts e job a start stage)
    (hworkers : (e'.workersOf job).Perm (e.workersOf job))
    (hsilent : Adds (Silent job) e e') : Accounts e' job a start stage := by
  cases h with
  | joining tallied => exact .joining (tallied.frame hworkers hsilent)
  | pausing tallied => exact .pausing (tallied.frame hworkers hsilent)
  | told shows told => exact .told shows (told.frame hsilent)

/-- A batch that the breaker admits begins its account. -/
theorem openChunk_accounts {e : Engine P R} {job : Nat} {a : Assignment P} (attempts : Nat)
    (hvalid : checkTasks a.tasks = .ok ()) (hnone : ∀ w ∈ e.workers, w.job ≠ job)
    (hunanswered : ∀ q value, ¬ e.Answered job q value) :
    Accounts (e.openChunk job attempts (.whole a.tasks)).1 job a e.journal
      (e.openChunk job attempts (.whole a.tasks)).2 := by
  obtain ⟨run, hstage, htallied⟩ := openChunk_tallied attempts rfl hnone
    (whole_tallied hvalid hnone hunanswered)
  rw [hstage]
  exact .joining htallied

theorem answered_accounts {e : Engine P R} {job : Nat} {a : Assignment P} {start : List (Entry P R)}
    {r : BatchResult R} (attempts : Nat) (h : Told e job a.tasks start r) :
    Accounts (e.answered job a attempts r).1 job a start (e.answered job a attempts r).2 := by
  exact .told (answered_shows e job a attempts r)
    (h.frame (answered_stores e job a attempts r).silent)

/-! ### Moves -/

/-- What holds of every engine on a course: it is well-formed, stages tell the truth, and suit their
jobs. -/
structure Regular (e : Engine P R) : Prop where
  reached : e.Reached
  suited : e.Suited

theorem Move.regular {e e' : Engine P R} (hmove : Move e e') (h : e.Regular) : e'.Regular :=
  ⟨hmove.reached h.reached, hmove.suited h.reached.wellFormed h.suited⟩

theorem Course.regular {e e' : Engine P R} (hcourse : Course e e') (h : e.Regular) : e'.Regular :=
  hcourse.keeps Move.regular h

theorem AtRest.regular {e : Engine P R} (hrest : e.AtRest)
    (assignments : List (Nat × Assignment P)) : (e.addJobs assignments).unturned.Regular :=
  ⟨hrest.reached assignments, hrest.suited assignments⟩

theorem Route.shows {e : Engine P R} {j : Job P R} {result : Engine P R × Stage P R}
    {r : BatchResult R} (h : Route e j result) (hshows : j.stage.Shows r)
    (hready : j.isReady e = true) : result.2.Shows r ∧ Stores j.number e result.1 := by
  obtain ⟨number, a, stage, turn⟩ := j
  cases stage with
  | finished time ending => cases hready
  | writing written run =>
    obtain rfl := hshows
    obtain rfl : result = followWrite a (some r) (e.writeTurn number run) := h.onward
    exact ⟨followWrite_shows a r _,
      (writeTurn_stores e number run).trans (followWrite_stores number a _ _)⟩
  | _ => cases hshows

/-- A turn of a job keeps its account. -/
theorem jobTurn_accounts {e : Engine P R} (hregular : e.Regular) {j : Job P R} (hj : j ∈ e.jobs)
    (hready : j.isReady e = true) {start : List (Entry P R)}
    (h : Accounts e j.number j.assignment start j.stage) :
    Accounts (e.jobTurn j).1 j.number j.assignment start (e.jobTurn j).2 := by
  have hwf := hregular.reached.wellFormed
  have htells := hregular.reached.truthful j hj
  have hroute := hregular.suited.route hwf hj hready
  have hnone (hstage : j.stage.isJoining = false) : ∀ w ∈ e.workers, w.job ≠ j.number :=
    hwf.no_workers hj hstage
  obtain ⟨number, a, stage, turn⟩ := j
  generalize e.jobTurn _ = result at hroute ⊢
  cases h with
  | @joining attempts run tallied =>
    have hbooked : Booked e number a.tasks run := htells
    have hjoins : Joins e number a attempts run result := hroute.onward
    cases hjoins with
    | collects found =>
      obtain ⟨hmem, hown⟩ := mem_workersOf.mp (List.mem_of_find?_eq_some found)
      have hended := List.find?_some found
      have htold := outcome?_told (hregular.reached.diligent _ hmem) hended
      refine .joining (collect_tallied hwf hbooked tallied hmem hown hended ?_)
      intro o houtcome
      rw [houtcome] at htold
      exact htold.not_pending
    | pauses none some => exact .pausing (settled_tallied hbooked tallied none)
    | reopens none some =>
      have hsettled := settled_tallied hbooked tallied none
      obtain ⟨run', hstage, htallied⟩ := openChunk_tallied attempts
        (settled_closed hbooked).remaining (settled_gone e number run) hsettled
      rw [hstage]
      exact .joining htallied
    | finishes none last =>
      exact answered_accounts _
        ((settled_tallied hbooked tallied none).told (settled_closed hbooked) last
          (settled_gone e number run))
  | @pausing attempts due run tallied =>
    have hclosed : Closed e number a.tasks run := htells
    obtain rfl : result = e.openChunk number attempts run := hroute.onward
    obtain ⟨run', hstage, htallied⟩ :=
      openChunk_tallied attempts hclosed.remaining (hnone rfl) tallied
    rw [hstage]
    exact .joining htallied
  | told shows told =>
    obtain ⟨hshows, hstores⟩ := hroute.shows shows hready
    exact .told hshows (told.frame hstores.silent)

/-- **Every move keeps the account of a batch.** -/
theorem Move.accounts {e e' : Engine P R} (hmove : Move e e') (hregular : e.Regular) {number : Nat}
    {start : List (Entry P R)}
    (h : ∀ j ∈ e.jobs, j.number = number → Accounts e number j.assignment start j.stage) :
    ∀ j ∈ e'.jobs, j.number = number → Accounts e' number j.assignment start j.stage := by
  have hwf := hregular.reached.wellFormed
  rintro k hk rfl
  cases hmove.happens hwf hregular.suited hk with
  | elsewhere same helse =>
    exact (h k same rfl).frame (helse.workersOf hwf (hmove.regular hregular).reached.wellFormed)
      (helse.journal.mono fun _ hp => silent_of_other hp)
  | @worker w same member own ready next =>
    subst next
    have haccounts := h k same rfl
    have hjoining := hwf.isJoining same member own
    have htells := hregular.reached.truthful k same
    obtain ⟨number, a, stage, turn⟩ := k
    cases haccounts with
    | joining tallied =>
      exact .joining (serveWorker_tallied hwf htells tallied member own ready)
    | pausing tallied => cases hjoining
    | told shows told =>
      cases stage with
      | joining attempts run => cases shows
      | _ => cases hjoining
  | @turn j member ready moved next =>
    subst moved next
    have haccounts := jobTurn_accounts hregular member ready (h j member rfl)
    exact haccounts.frame (.refl _) (.nothing rfl)

theorem Course.accounts {e e' : Engine P R} (hcourse : Course e e') (hregular : e.Regular)
    {number : Nat} {start : List (Entry P R)}
    (h : ∀ j ∈ e.jobs, j.number = number → Accounts e number j.assignment start j.stage) :
    ∀ j ∈ e'.jobs, j.number = number → Accounts e' number j.assignment start j.stage := by
  have hboth := hcourse.keeps (I := fun e₁ => e₁.Regular ∧
    ∀ j ∈ e₁.jobs, j.number = number → Accounts e₁ number j.assignment start j.stage)
    (fun hmove hi => ⟨hmove.regular hi.1, hmove.accounts hi.1 hi.2⟩) ⟨hregular, h⟩
  exact hboth.2

end Engine

end OrderAdmission
