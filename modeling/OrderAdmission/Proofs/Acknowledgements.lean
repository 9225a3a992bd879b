import Mathlib.Data.List.Pairwise
import OrderAdmission.Proofs.Tallies

/-!
# Acknowledgements

An order that is placed twice costs money, so a submission must not get two acknowledgements for one
order. Between the calls and the answers of a job there are a few that rule each other out: after an
answer to a bulk call there are neither calls nor answers, before it nothing has been sent singly, and
no order is sent singly, or answered singly, twice. `Event.Bars` lists them.

The stage of a job says what has been sent so far (`Standing`), and from this it follows that the next
thing it does rules nothing out that has been done. The main result is `acknowledged_at_most_once`:
**of all calls of a submission, at most one returns an acknowledgement for an order, and the result has
it in the place of the order**, unless the task of the order is cut off between its report and its end.
-/
namespace OrderAdmission

variable {P R : Type}

namespace Event

/-- Whether an event is a call to the service, or the end of one. -/
def isTraffic : Event P R → Bool
  | .bulkCalled _ _ | .bulkEnded _ _ | .singleCalled _ _ _ _ | .singleEnded _ _ _ => true
  | _ => false

def isCall : Event P R → Bool
  | .bulkCalled _ _ | .singleCalled _ _ _ _ => true
  | _ => false

def isSingle : Event P R → Bool
  | .singleCalled _ _ _ _ | .singleEnded _ _ _ => true
  | _ => false

theorem isTraffic_of_isCall {event : Event P R} (h : event.isCall = true) :
    event.isTraffic = true := by
  cases event <;> first | rfl | cases h

theorem isTraffic_of_isSingle {event : Event P R} (h : event.isSingle = true) :
    event.isTraffic = true := by
  cases event <;> first | rfl | cases h

theorem isExchange_of_isSingle {event : Event P R} (h : event.isSingle = true) :
    event.isExchange = true := by
  cases event <;> first | rfl | cases h

/-- Whether a job calls for the order in this place. -/
def calls (job place : Nat) : Event P R → Bool
  | .singleCalled k position _ _ => k == job && position == place
  | _ => false

/-- The acknowledgement that a job gets for the order in this place, in the answer to a bulk call or to
one of its own. -/
def ack? (job place : Nat) : Event P R → Option R
  | .bulkEnded k (some (.ok items)) =>
    match items[place]? with
    | some (.ok value) => if k = job then some value else none
    | _ => none
  | .singleEnded k position (some (.ok value)) =>
    if k = job ∧ position = place then some value else none
  | _ => none

theorem ack?_eq_some {job place : Nat} {event : Event P R} {value : R} :
    event.ack? job place = some value ↔
      (∃ items, event = .bulkEnded job (some (.ok items)) ∧ items[place]? = some (.ok value)) ∨
        event = .singleEnded job place (some (.ok value)) := by
  constructor
  · intro h
    unfold ack? at h
    split at h
    · split at h
      · rename_i items value' hitem
        split at h
        · rename_i hjob
          obtain rfl := Option.some.inj h
          exact Or.inl ⟨_, by rw [hjob], hitem⟩
        · cases h
      · cases h
    · split at h
      · rename_i hboth
        obtain rfl := Option.some.inj h
        exact Or.inr (by rw [hboth.1, hboth.2])
      · cases h
    · cases h
  · rintro (⟨items, rfl, hitem⟩ | rfl)
    · simp only [ack?, hitem, ↓reduceIte]
    · simp only [ack?, and_self, ↓reduceIte]

/-- The later of two events is a call or an answer too many for a job after the earlier one. -/
inductive Bars (job : Nat) : Event P R → Event P R → Prop where
  | answered {items : List (Except DownstreamFailure R)} {later : Event P R}
      (own : later.job = job) (traffic : later.isTraffic = true) :
      Bars job (.bulkEnded job (some (.ok items))) later
  | singly {items : List (Except DownstreamFailure R)} {earlier : Event P R}
      (own : earlier.job = job) (single : earlier.isSingle = true) :
      Bars job earlier (.bulkEnded job (some (.ok items)))
  | called {position inFlight inFlight' : Nat} {payload payload' : P} :
      Bars job (.singleCalled job position payload inFlight)
        (.singleCalled job position payload' inFlight')
  | ended {position : Nat} {answer answer' : Option (Except DownstreamFailure R)} :
      Bars job (.singleEnded job position answer) (.singleEnded job position answer')

theorem Bars.earlier {job : Nat} {earlier later : Event P R} (h : Bars job earlier later) :
    earlier.job = job ∧ earlier.isExchange = true := by
  cases h with
  | answered own traffic => exact ⟨rfl, rfl⟩
  | singly own single => exact ⟨own, isExchange_of_isSingle single⟩
  | called => exact ⟨rfl, rfl⟩
  | ended => exact ⟨rfl, rfl⟩

end Event

namespace Engine

/-- An event that is no traffic of the job. -/
def Aside (job : Nat) (event : Event P R) : Prop := event.isTraffic = false ∨ event.job ≠ job

theorem Aside.job_ne {job : Nat} {event : Event P R} (h : Aside job event)
    (htraffic : event.isTraffic = true) : event.job ≠ job := by
  rcases h with hnone | hother
  · rw [htraffic] at hnone
    cases hnone
  · exact hother

theorem Aside.not_bars {job : Nat} {earlier later : Event P R} (h : Aside job later) :
    ¬ Event.Bars job earlier later := by
  intro hbars
  cases hbars with
  | answered own traffic => exact h.job_ne traffic own
  | singly own single => exact h.job_ne rfl rfl
  | called => exact h.job_ne rfl rfl
  | ended => exact h.job_ne rfl rfl

/-- The job has made no call and got no answer too many. -/
def Spare (e : Engine P R) (job : Nat) : Prop :=
  e.journal.Pairwise fun later earlier => ¬ Event.Bars job earlier.event later.event

/-- No bulk call of the job has been answered. -/
def Unanswered (e : Engine P R) (job : Nat) : Prop :=
  ∀ x ∈ e.journal, ∀ items, x.event ≠ .bulkEnded job (some (.ok items))

/-- The job has not sent anything singly. -/
def Unsent (e : Engine P R) (job : Nat) : Prop :=
  ∀ x ∈ e.journal, x.event.job = job → x.event.isSingle = false

/-- What the job has sent singly are its tasks. -/
def Ordered (e : Engine P R) (job : Nat) (tasks : List (BatchTask P)) : Prop :=
  ∀ x ∈ e.journal, ∀ q payload inFlight, x.event = .singleCalled job q payload inFlight →
    ∃ t, tasks[q]? = some t ∧ t.payload = payload

section Aside

variable {e e' : Engine P R} {job : Nat}

theorem Spare.cons {x : Entry P R} (h : e.Spare job) (hjournal : e'.journal = x :: e.journal)
    (hx : ∀ y ∈ e.journal, ¬ Event.Bars job y.event x.event) : e'.Spare job := by
  rw [Spare, hjournal]
  exact List.Pairwise.cons hx h

theorem Spare.aside (h : e.Spare job) (haside : Adds (Aside job) e e') : e'.Spare job := by
  obtain ⟨added, hjournal, hp⟩ := haside
  rw [Spare, hjournal, List.pairwise_append]
  refine ⟨List.pairwise_of_forall_mem_list ?_, h, ?_⟩
  · exact fun x hx _ _ => (hp x hx).not_bars
  · exact fun x hx _ _ => (hp x hx).not_bars

theorem Unanswered.adds {p : Event P R → Prop} (h : e.Unanswered job) (hadds : Adds p e e')
    (hp : ∀ event, p event → ∀ items, event ≠ .bulkEnded job (some (.ok items))) :
    e'.Unanswered job := by
  intro x hx
  exact (hadds.mem hx).elim (h x) (hp x.event)

theorem Unanswered.aside (h : e.Unanswered job) (haside : Adds (Aside job) e e') :
    e'.Unanswered job := by
  refine h.adds haside ?_
  rintro event hevent items rfl
  exact hevent.job_ne rfl rfl

theorem Unsent.adds {p : Event P R → Prop} (h : e.Unsent job) (hadds : Adds p e e')
    (hp : ∀ event, p event → event.job = job → event.isSingle = false) : e'.Unsent job := by
  intro x hx
  exact (hadds.mem hx).elim (h x) (hp x.event)

theorem Unsent.aside (h : e.Unsent job) (haside : Adds (Aside job) e e') : e'.Unsent job := by
  refine h.adds haside ?_
  intro event hevent hjob
  by_contra hsingle
  exact hevent.job_ne (Event.isTraffic_of_isSingle (by simpa using hsingle)) hjob

theorem Ordered.adds {tasks : List (BatchTask P)} {p : Event P R → Prop} (h : e.Ordered job tasks)
    (hadds : Adds p e e')
    (hp : ∀ event, p event → ∀ q payload inFlight, event ≠ .singleCalled job q payload inFlight) :
    e'.Ordered job tasks := by
  intro x hx q payload inFlight hevent
  rcases hadds.mem hx with hx | hx
  · exact h x hx q payload inFlight hevent
  · exact absurd hevent (hp x.event hx q payload inFlight)

theorem Ordered.aside {tasks : List (BatchTask P)} (h : e.Ordered job tasks)
    (haside : Adds (Aside job) e e') : e'.Ordered job tasks := by
  refine h.adds haside ?_
  rintro event hevent q payload inFlight rfl
  exact hevent.job_ne rfl rfl

theorem Stores.aside {k : Nat} (h : Stores k e e') : Adds (Aside job) e e' := by
  refine h.journal.mono ?_
  rintro event ⟨call, rfl⟩
  exact Or.inl rfl

theorem Paper.aside {k : Nat} (h : Paper k e e') : Adds (Aside job) e e' := by
  refine (Paper.frame h).journal.mono ?_
  rintro event ⟨r, wall, rfl⟩
  exact Or.inl rfl

theorem settled_aside (e : Engine P R) (job k : Nat) (run : BatchRun P R) :
    Adds (Aside job) e (e.settled k run).1 := by
  refine (settled_journal e k run).mono ?_
  rintro event (⟨position, told, rfl⟩ | ⟨r, wall, rfl⟩)
  · exact Or.inl rfl
  · exact Or.inl rfl

theorem Elsewhere.aside (h : Elsewhere job e e') : Adds (Aside job) e e' :=
  h.journal.mono fun _ hother => Or.inr hother

end Aside

/-- Between these two journals no task of the job has been cut off. -/
def Uncut (job : Nat) (origin journal : List (Entry P R)) : Prop :=
  ∃ added, journal = added ++ origin ∧ ∀ x ∈ added, ∀ q told, x.event ≠ .cutOff job q told

section Uncut

variable {e e' : Engine P R} {job : Nat} {origin : List (Entry P R)}

theorem Uncut.adds {p : Event P R → Prop} (h : Uncut job origin e.journal) (hadds : Adds p e e')
    (hp : ∀ event, p event → ∀ q told, event ≠ .cutOff job q told) :
    Uncut job origin e'.journal := by
  obtain ⟨old, hold, hnone⟩ := h
  obtain ⟨added, hjournal, hadded⟩ := hadds
  refine ⟨added ++ old, by rw [hjournal, hold, List.append_assoc], ?_⟩
  intro x hx
  rcases List.mem_append.mp hx with hnew | hbefore
  · exact hp x.event (hadded x hnew)
  · exact hnone x hbefore

theorem Uncut.paper {k : Nat} (h : Uncut job origin e.journal) (hpaper : Paper k e e') :
    Uncut job origin e'.journal := by
  refine h.adds (Paper.frame hpaper).journal ?_
  rintro event ⟨r, wall, rfl⟩ q told hevent
  cases hevent

theorem Uncut.stores {k : Nat} (h : Uncut job origin e.journal) (hstores : Stores k e e') :
    Uncut job origin e'.journal := by
  refine h.adds hstores.journal ?_
  rintro event ⟨call, rfl⟩ q told hevent
  cases hevent

theorem Uncut.heard {j : Job P R} (h : Uncut job origin e.journal) :
    Uncut job origin (e.heard j).journal := by
  refine h.adds (heard_journal e j) ?_
  rintro event ⟨answer, rfl⟩ q told hevent
  cases hevent

/-- Who has been cut off since the first journal has been cut off since the second one. -/
theorem Uncut.cutOff {start : List (Entry P R)} {q : Nat} (h : Uncut job origin start)
    (hgrown : start <:+ e.journal) : e.CutOff job origin q ↔ e.CutOff job start q := by
  obtain ⟨early, rfl, hnone⟩ := h
  obtain ⟨later, hlater⟩ := hgrown
  constructor
  · rintro ⟨added, hjournal, x, hx, told, hevent⟩
    obtain rfl : added = later ++ early := by
      refine List.append_cancel_right (hjournal.symm.trans ?_)
      rw [← hlater, List.append_assoc]
    rcases List.mem_append.mp hx with hx | hx
    · exact ⟨later, hlater.symm, x, hx, told, hevent⟩
    · exact absurd hevent (hnone x hx q told)
  · rintro ⟨added, hjournal, x, hx, hcut⟩
    exact ⟨added ++ early, by rw [hjournal, List.append_assoc], x, List.mem_append_left early hx, hcut⟩

theorem Uncut.not_cutOff {q : Nat} (h : Uncut job origin e.journal) : ¬ e.CutOff job origin q := by
  rw [h.cutOff (List.suffix_refl _)]
  exact e.not_cutOff_self job q

end Uncut

end Engine

/-! ### What has been sent so far -/

/-- Whether a worker has no permit yet, so that it has not made its call. -/
def Worker.isWaiting (w : Worker P R) : Bool :=
  match w.phase with
  | .fresh | .queued _ => true
  | _ => false

/-- Whether the call of a worker is over, or there will be none. -/
def Worker.isOver (w : Worker P R) : Bool :=
  match w.phase with
  | .reported _ _ | .ended _ => true
  | _ => false

/-- The position up to which the tasks of a batch have begun at this stage. -/
def Stage.position? : Stage P R → Option Nat
  | .joining _ run | .pausing _ run _ => some run.position
  | _ => none

theorem Stage.position?_of_shows {stage : Stage P R} {r : BatchResult R} (h : stage.Shows r) :
    stage.position? = none := by
  cases stage <;> first | rfl | cases h

namespace Engine

/-- Only tasks before this position have been sent, and of those with a worker only where the worker
has made its call, and an answer is there only where the call of the worker is over. -/
structure Sent (e : Engine P R) (job position : Nat) : Prop where
  called : ∀ x ∈ e.journal, ∀ q payload inFlight, x.event = .singleCalled job q payload inFlight →
    q < position ∧ ∀ w ∈ e.workers, w.job = job → w.position = q → w.isWaiting = false
  ended : ∀ x ∈ e.journal, ∀ q answer, x.event = .singleEnded job q answer →
    q < position ∧ ∀ w ∈ e.workers, w.job = job → w.position = q → w.isOver = true

theorem Unsent.sent {e : Engine P R} {job : Nat} (h : e.Unsent job) (position : Nat) :
    Sent e job position := by
  constructor
  · intro x hx q payload inFlight hevent
    have hnone := h x hx (by rw [hevent]; rfl)
    rw [hevent] at hnone
    cases hnone
  · intro x hx q answer hevent
    have hnone := h x hx (by rw [hevent]; rfl)
    rw [hevent] at hnone
    cases hnone

/-- New workers begin behind the tasks that have begun. -/
theorem Sent.grow {e e' : Engine P R} {job position position' : Nat} (h : Sent e job position)
    (hle : position ≤ position') (hworkers : ∀ w ∈ e'.workers, w.job = job →
      w ∈ e.workers ∨ position ≤ w.position) (haside : Adds (Aside job) e e') :
    Sent e' job position' := by
  constructor
  · intro x hx q payload inFlight hevent
    rcases haside.mem hx with hx | hx
    · obtain ⟨hlt, hcalled⟩ := h.called x hx q payload inFlight hevent
      refine ⟨Nat.lt_of_lt_of_le hlt hle, ?_⟩
      intro w hw hjob hposition
      rcases hworkers w hw hjob with hold | hnew
      · exact hcalled w hold hjob hposition
      · omega
    · rw [hevent] at hx
      exact absurd rfl (hx.job_ne rfl)
  · intro x hx q answer hevent
    rcases haside.mem hx with hx | hx
    · obtain ⟨hlt, hended⟩ := h.ended x hx q answer hevent
      refine ⟨Nat.lt_of_lt_of_le hlt hle, ?_⟩
      intro w hw hjob hposition
      rcases hworkers w hw hjob with hold | hnew
      · exact hended w hold hjob hposition
      · omega
    · rw [hevent] at hx
      exact absurd rfl (hx.job_ne rfl)

/-- What is known of the traffic of a submission from its stage, since it came to the engine with the
journal `origin`. -/
inductive Standing (origin : List (Entry P R)) (e : Engine P R) (job : Nat) (a : Assignment P) :
    Stage P R → Prop where
  /-- Bulk calls have failed, if there have been any, and nothing has been sent singly. -/
  | sending {stage : Stage P R} (source : stage.isSending = true)
      (unanswered : e.Unanswered job) (unsent : e.Unsent job)
      (uncut : Uncut job origin e.journal) : Standing origin e job a stage
  /-- Bulk calls have failed, if there have been any, and orders are sent singly. -/
  | batch {start : List (Entry P R)} {stage : Stage P R} (accounts : Accounts e job a start stage)
      (unanswered : e.Unanswered job)
      (sent : ∀ position, stage.position? = some position → Sent e job position)
      (early : Uncut job origin start) : Standing origin e job a stage
  /-- A bulk call has been answered, and nothing has been sent singly. -/
  | answered {time : Nat} {items : List (Except DownstreamFailure R)} {stage : Stage P R}
      (answer : (⟨time, .bulkEnded job (some (.ok items))⟩ : Entry P R) ∈ e.journal)
      (unsent : e.Unsent job) (uncut : Uncut job origin e.journal)
      (shows : stage.Shows { outcomes := items.map .ofItem }) : Standing origin e job a stage
  /-- There was nothing to send. -/
  | idle {stage : Stage P R} (none : a.tasks = []) (shows : stage.Shows .empty) :
      Standing origin e job a stage
  /-- It has ended without a receipt. -/
  | refused {time : Nat} {ending : Ending R} {stage : Stage P R}
      (source : stage = .finished time ending) (refusal : isRefusal ending = true) :
      Standing origin e job a stage

/-- The traffic of a submission: nothing is too many, its own tasks have been sent, and its stage says
what. -/
structure Careful (origin : List (Entry P R)) (e : Engine P R) (job : Nat) (a : Assignment P)
    (stage : Stage P R) : Prop where
  spare : e.Spare job
  ordered : e.Ordered job a.tasks
  standing : Standing origin e job a stage

theorem Careful.frame {origin : List (Entry P R)} {e e' : Engine P R} {job : Nat} {a : Assignment P}
    {stage : Stage P R} (h : Careful origin e job a stage)
    (hsame : (e'.workersOf job).Perm (e.workersOf job)) (helse : Elsewhere job e e') :
    Careful origin e' job a stage := by
  have haside := helse.aside
  have hsilent : Adds (Silent job) e e' := helse.journal.mono fun _ hp => silent_of_other hp
  refine ⟨h.spare.aside haside, h.ordered.aside haside, ?_⟩
  cases h.standing with
  | sending source unanswered unsent uncut =>
    exact .sending source (unanswered.aside haside) (unsent.aside haside)
      (uncut.adds hsilent fun _ hp => hp.2.2)
  | batch accounts unanswered sent early =>
    refine .batch (accounts.frame hsame hsilent) (unanswered.aside haside) ?_ early
    intro position hposition
    refine (sent position hposition).grow (Nat.le_refl _) ?_ haside
    exact fun w hw hjob => Or.inl ((helse.workers w hjob).mp hw)
  | answered answer unsent uncut shows =>
    exact .answered (haside.old answer) (unsent.aside haside)
      (uncut.adds hsilent fun _ hp => hp.2.2) shows
  | idle none shows => exact .idle none shows
  | refused source refusal => exact .refused source refusal

/-! ### Turns of a worker -/

theorem mem_serveWorker {e : Engine P R} (hwf : e.WellFormed) {v w : Worker P R}
    (hw : w ∈ e.workers) : v ∈ (e.serveWorker w).workers ↔
      v = { w with phase := (e.workerTurn w).2 } ∨ v ∈ e.workers ∧ v ≠ w := by
  obtain ⟨before, after, hold, hnew⟩ := serveWorker_workers hwf hw
  have hdistinct := hwf.workers_nodup
  rw [hold] at hdistinct
  obtain ⟨hbefore, hafter⟩ := ne_key_of_nodup hdistinct
  rw [hold, hnew]
  simp only [List.mem_append, List.mem_cons]
  constructor
  · rintro (hv | rfl | hv)
    · refine Or.inr ⟨Or.inl hv, ?_⟩
      rintro rfl
      exact hbefore _ hv rfl
    · exact Or.inl rfl
    · refine Or.inr ⟨Or.inr (Or.inr hv), ?_⟩
      rintro rfl
      exact hafter _ hv rfl
  · rintro (rfl | ⟨hv | rfl | hv, hne⟩)
    · exact Or.inr (Or.inl rfl)
    · exact Or.inl hv
    · exact absurd rfl hne
    · exact Or.inr (Or.inr hv)

/-- A worker with a new permit makes its call, the call of a worker comes back or is cut off, and
otherwise there is no traffic. -/
theorem workerTurn_traffic (e : Engine P R) {w : Worker P R}
    (hready : w.isReady e.limiter e.now = true) :
    (∃ inFlight, (e.workerTurn w).1.journal =
        ⟨e.now, .singleCalled w.job w.position w.payload inFlight⟩ :: e.journal ∧
      w.isWaiting = true ∧ { w with phase := (e.workerTurn w).2 }.isWaiting = false) ∨
    (∃ answer r wall, (e.workerTurn w).1.journal = ⟨e.now, .reported w.job r wall⟩ ::
        ⟨e.now, .singleEnded w.job w.position answer⟩ :: e.journal ∧
      w.isOver = false ∧ { w with phase := (e.workerTurn w).2 }.isOver = true) ∨
    (Adds (Aside w.job) e (e.workerTurn w).1 ∧
      (w.isWaiting = false → { w with phase := (e.workerTurn w).2 }.isWaiting = false) ∧
      (w.isOver = true → { w with phase := (e.workerTurn w).2 }.isOver = true)) := by
  obtain ⟨number, job, position, index, payload, phase, turn⟩ := w
  cases phase with
  | fresh =>
    simp only [workerTurn]
    split
    · exact Or.inl ⟨_, rfl, rfl, rfl⟩
    · exact Or.inr (Or.inr ⟨.nothing rfl, by simp [Worker.isWaiting], by simp [Worker.isOver]⟩)
  | queued limit =>
    simp only [workerTurn]
    split
    · exact Or.inl ⟨_, rfl, rfl, rfl⟩
    · exact Or.inr (Or.inr ⟨.one rfl (Or.inl rfl), by simp [Worker.isWaiting],
        by simp [Worker.isOver]⟩)
  | working call cutoff =>
    simp only [workerTurn]
    split
    · exact Or.inr (Or.inl ⟨_, _, _, rfl, rfl, rfl⟩)
    · exact Or.inr (Or.inl ⟨_, _, _, rfl, rfl, rfl⟩)
    · exact Or.inr (Or.inr ⟨.nothing rfl, fun _ => rfl, fun _ => rfl⟩)
    · exact Or.inr (Or.inl ⟨_, _, _, rfl, rfl, rfl⟩)
  | reported permit outcome => exact Or.inr (Or.inr ⟨.nothing rfl, fun _ => rfl, fun _ => rfl⟩)
  | ended outcome => cases hready

theorem isWaiting_of_isOver {w : Worker P R} (h : w.isOver = true) : w.isWaiting = false := by
  obtain ⟨number, job, position, index, payload, phase, turn⟩ := w
  cases phase with
  | reported permit outcome | ended outcome => rfl
  | _ => cases h

theorem not_isOver_of_isWaiting {w : Worker P R} (h : w.isWaiting = true) : w.isOver = false := by
  obtain ⟨number, job, position, index, payload, phase, turn⟩ := w
  cases phase with
  | fresh | queued limit => rfl
  | _ => cases h

/-- A worker that is able to go on, with a seat that nobody else of its job has. -/
structure Seated (e : Engine P R) (w : Worker P R) (position : Nat) : Prop where
  member : w ∈ e.workers
  ready : w.isReady e.limiter e.now = true
  seat : w.position < position
  apart : ∀ v ∈ e.workers, v.job = w.job → v.position = w.position → v = w

/-- What is known of the traffic of a job while its orders are sent singly. -/
structure Singly (e : Engine P R) (job : Nat) (tasks : List (BatchTask P)) (position : Nat) :
    Prop where
  spare : e.Spare job
  ordered : e.Ordered job tasks
  unanswered : e.Unanswered job
  sent : Sent e job position

section Singly

variable {e : Engine P R} {w : Worker P R} {tasks : List (BatchTask P)} {position : Nat}

theorem Sent.serveWorker (h : Sent e w.job position) (hwf : e.WellFormed)
    (hseated : Seated e w position)
    (hstill : w.isWaiting = false → { w with phase := (e.workerTurn w).2 }.isWaiting = false)
    (hover : w.isOver = true → { w with phase := (e.workerTurn w).2 }.isOver = true)
    (hadds : Adds (fun event =>
      (∀ q payload inFlight, event = .singleCalled w.job q payload inFlight →
        q = w.position ∧ { w with phase := (e.workerTurn w).2 }.isWaiting = false) ∧
      ∀ q answer, event = .singleEnded w.job q answer →
        q = w.position ∧ { w with phase := (e.workerTurn w).2 }.isOver = true)
      e (e.serveWorker w)) : Sent (e.serveWorker w) w.job position := by
  have hw := hseated.member
  constructor
  · intro x hx q payload inFlight hevent
    rcases hadds.mem hx with hx | ⟨hnew, _⟩
    · obtain ⟨hlt, hcalled⟩ := h.called x hx q payload inFlight hevent
      refine ⟨hlt, ?_⟩
      intro v hv hvjob hvposition
      rcases (mem_serveWorker hwf hw).mp hv with rfl | ⟨hv, _⟩
      · exact hstill (hcalled w hw rfl hvposition)
      · exact hcalled v hv hvjob hvposition
    · obtain ⟨rfl, hphase⟩ := hnew q payload inFlight hevent
      refine ⟨hseated.seat, ?_⟩
      intro v hv hvjob hvposition
      rcases (mem_serveWorker hwf hw).mp hv with rfl | ⟨hv, hne⟩
      · exact hphase
      · exact absurd (hseated.apart v hv hvjob hvposition) hne
  · intro x hx q answer hevent
    rcases hadds.mem hx with hx | ⟨_, hnew⟩
    · obtain ⟨hlt, hended⟩ := h.ended x hx q answer hevent
      refine ⟨hlt, ?_⟩
      intro v hv hvjob hvposition
      rcases (mem_serveWorker hwf hw).mp hv with rfl | ⟨hv, _⟩
      · exact hover (hended w hw rfl hvposition)
      · exact hended v hv hvjob hvposition
    · obtain ⟨rfl, hphase⟩ := hnew q answer hevent
      refine ⟨hseated.seat, ?_⟩
      intro v hv hvjob hvposition
      rcases (mem_serveWorker hwf hw).mp hv with rfl | ⟨hv, hne⟩
      · exact hphase
      · exact absurd (hseated.apart v hv hvjob hvposition) hne

theorem Singly.called (h : Singly e w.job tasks position) (hwf : e.WellFormed)
    (hseated : Seated e w position) (htask : tasks[w.position]? = some ⟨w.index, w.payload⟩)
    {inFlight : Nat} (hjournal : (e.serveWorker w).journal =
      ⟨e.now, .singleCalled w.job w.position w.payload inFlight⟩ :: e.journal)
    (hwaiting : w.isWaiting = true)
    (hphase : { w with phase := (e.workerTurn w).2 }.isWaiting = false) :
    Singly (e.serveWorker w) w.job tasks position := by
  have hone : Adds (fun event => event = .singleCalled w.job w.position w.payload inFlight) e
      (e.serveWorker w) := .one hjournal rfl
  refine ⟨h.spare.cons hjournal ?_, ?_, h.unanswered.adds hone (by simp), ?_⟩
  · -- Its own call would be the second one, and it has not yet made the first.
    intro y hy hbars
    generalize hevent : y.event = earlier at hbars
    cases hbars with
    | answered own traffic => exact h.unanswered y hy _ hevent
    | called =>
      have hcalled := (h.sent.called y hy _ _ _ hevent).2 w hseated.member rfl rfl
      rw [hwaiting] at hcalled
      cases hcalled
  · intro x hx q payload inFlight' hevent
    rcases hone.mem hx with hx | hnew
    · exact h.ordered x hx q payload inFlight' hevent
    · obtain ⟨_, rfl, rfl, _⟩ := Event.singleCalled.inj (hnew.symm.trans hevent)
      exact ⟨_, htask, rfl⟩
  · have hnever : w.isOver = true → { w with phase := (e.workerTurn w).2 }.isOver = true := by
      rw [not_isOver_of_isWaiting hwaiting]
      exact fun hover => absurd hover Bool.false_ne_true
    refine h.sent.serveWorker hwf hseated (fun _ => hphase) hnever (hone.mono ?_)
    rintro event rfl
    refine ⟨?_, by simp⟩
    intro q payload inFlight' hevent
    exact ⟨(Event.singleCalled.inj hevent).2.1.symm, hphase⟩

theorem Singly.ended (h : Singly e w.job tasks position) (hwf : e.WellFormed)
    (hseated : Seated e w position) {answer : Option (Except DownstreamFailure R)} {r : Report}
    {wall : Int} (hjournal : (e.serveWorker w).journal = ⟨e.now, .reported w.job r wall⟩ ::
      ⟨e.now, .singleEnded w.job w.position answer⟩ :: e.journal)
    (hbefore : w.isOver = false)
    (hphase : { w with phase := (e.workerTurn w).2 }.isOver = true) :
    Singly (e.serveWorker w) w.job tasks position := by
  have htwo : Adds (fun event => event = .reported w.job r wall ∨
      event = .singleEnded w.job w.position answer) e (e.serveWorker w) := by
    refine ⟨[_, _], hjournal, ?_⟩
    intro x hx
    rcases List.mem_pair.mp hx with rfl | rfl
    · exact Or.inl rfl
    · exact Or.inr rfl
  refine ⟨?_, ?_, ?_, ?_⟩
  · have hended : (e.note (.singleEnded w.job w.position answer)).Spare w.job := by
      -- Its own answer would be the second one, and its call was not over.
      refine h.spare.cons rfl ?_
      intro y hy hbars
      generalize hevent : y.event = earlier at hbars
      cases hbars with
      | answered own traffic => exact h.unanswered y hy _ hevent
      | ended =>
        have hover := (h.sent.ended y hy _ _ hevent).2 w hseated.member rfl rfl
        rw [hbefore] at hover
        cases hover
    exact hended.aside (.one hjournal (Or.inl rfl))
  · refine h.ordered.adds htwo ?_
    rintro event (rfl | rfl) q payload inFlight hevent <;> cases hevent
  · refine h.unanswered.adds htwo ?_
    rintro event (rfl | rfl) items hevent <;> cases hevent
  · refine h.sent.serveWorker hwf hseated (fun _ => isWaiting_of_isOver hphase) (fun _ => hphase)
      (htwo.mono ?_)
    rintro event (rfl | rfl)
    · exact ⟨by simp, by simp⟩
    · refine ⟨by simp, ?_⟩
      intro q answer' hevent
      exact ⟨(Event.singleEnded.inj hevent).2.1.symm, hphase⟩

theorem Singly.aside (h : Singly e w.job tasks position) (hwf : e.WellFormed)
    (hseated : Seated e w position) (haside : Adds (Aside w.job) e (e.serveWorker w))
    (hstill : w.isWaiting = false → { w with phase := (e.workerTurn w).2 }.isWaiting = false)
    (hover : w.isOver = true → { w with phase := (e.workerTurn w).2 }.isOver = true) :
    Singly (e.serveWorker w) w.job tasks position := by
  refine ⟨h.spare.aside haside, h.ordered.aside haside, h.unanswered.aside haside, ?_⟩
  refine h.sent.serveWorker hwf hseated hstill hover (haside.mono ?_)
  intro event hevent
  constructor
  · rintro q payload inFlight rfl
    exact absurd rfl (hevent.job_ne rfl)
  · rintro q answer rfl
    exact absurd rfl (hevent.job_ne rfl)

/-- A worker that is served makes its call, or its call is over, or it causes no traffic. -/
theorem Singly.serveWorker (h : Singly e w.job tasks position) (hwf : e.WellFormed)
    (hseated : Seated e w position) (htask : tasks[w.position]? = some ⟨w.index, w.payload⟩) :
    Singly (e.serveWorker w) w.job tasks position := by
  rcases workerTurn_traffic e hseated.ready with ⟨inFlight, hjournal, hwaiting, hphase⟩ |
    ⟨answer, r, wall, hjournal, hbefore, hphase⟩ | ⟨haside, hstill, hover⟩
  · exact h.called hwf hseated htask hjournal hwaiting hphase
  · exact h.ended hwf hseated hjournal hbefore hphase
  · exact h.aside hwf hseated haside hstill hover

end Singly

/-- What has been sent stays as it is while others go on, and when new workers begin behind it. -/
theorem Singly.grow {e e' : Engine P R} {job position position' : Nat} {tasks : List (BatchTask P)}
    (h : Singly e job tasks position) (hle : position ≤ position')
    (hworkers : ∀ w ∈ e'.workers, w.job = job → w ∈ e.workers ∨ position ≤ w.position)
    (haside : Adds (Aside job) e e') : Singly e' job tasks position' :=
  ⟨h.spare.aside haside, h.ordered.aside haside, h.unanswered.aside haside,
    h.sent.grow hle hworkers haside⟩

/-- A job with workers has not been answered by a bulk call, and sends its orders singly. -/
theorem Careful.of_joining {origin : List (Entry P R)} {e : Engine P R} {job : Nat}
    {a : Assignment P} {attempts : Nat} {run : BatchRun P R}
    (h : Careful origin e job a (.joining attempts run)) :
    (∃ start, Tallied e job a.tasks start run ∧ Uncut job origin start) ∧
      Singly e job a.tasks run.position := by
  cases h.standing with
  | sending source unanswered unsent uncut => cases source
  | batch accounts unanswered sent early =>
    refine ⟨?_, h.spare, h.ordered, unanswered, sent _ rfl⟩
    cases accounts with
    | joining tallied => exact ⟨_, tallied, early⟩
    | told shows told => exact shows.elim
  | answered answer unsent uncut shows => exact shows.elim
  | idle none shows => exact shows.elim
  | refused source refusal => cases source

theorem serveWorker_careful {origin : List (Entry P R)} {e : Engine P R} (hwf : e.WellFormed)
    {job : Nat} {a : Assignment P} {attempts : Nat} {run : BatchRun P R}
    (hbooked : Booked e job a.tasks run) (h : Careful origin e job a (.joining attempts run))
    {w : Worker P R} (hw : w ∈ e.workers) (hjob : w.job = job)
    (hready : w.isReady e.limiter e.now = true) :
    Careful origin (e.serveWorker w) job a (.joining attempts run) := by
  obtain ⟨⟨start, htallied, hearly⟩, hsingly⟩ := h.of_joining
  have htallied' := serveWorker_tallied hwf hbooked htallied hw hjob hready
  subst hjob
  have hown := mem_workersOf.mpr ⟨hw, rfl⟩
  have hapart : ∀ v ∈ e.workers, v.job = w.job → v.position = w.position → v = w := by
    intro v hv hvjob hposition
    exact List.inj_on_of_nodup_map hwf.workers_nodup hv hw
      (htallied.apart v (mem_workersOf.mpr ⟨hv, hvjob⟩) w hown hposition)
  have hseated : Seated e w run.position := ⟨hw, hready, (htallied.seat w hown).2, hapart⟩
  have hserved := hsingly.serveWorker hwf hseated (hbooked.staff w hw rfl)
  refine ⟨hserved.spare, hserved.ordered,
    .batch (.joining htallied') hserved.unanswered ?_ hearly⟩
  intro position hposition
  obtain rfl := Option.some.inj hposition
  exact hserved.sent

/-! ### Turns of a job -/

/-- Nothing has come of a submission so far. -/
structure Clear (e : Engine P R) (job : Nat) (tasks : List (BatchTask P)) : Prop where
  spare : e.Spare job
  ordered : e.Ordered job tasks
  unanswered : e.Unanswered job
  unsent : e.Unsent job

section Clear

variable {e e' : Engine P R} {job : Nat} {tasks : List (BatchTask P)}

theorem Clear.aside (h : Clear e job tasks) (haside : Adds (Aside job) e e') :
    Clear e' job tasks :=
  ⟨h.spare.aside haside, h.ordered.aside haside, h.unanswered.aside haside, h.unsent.aside haside⟩

theorem Clear.singly (h : Clear e job tasks) (position : Nat) : Singly e job tasks position :=
  ⟨h.spare, h.ordered, h.unanswered, h.unsent.sent position⟩

theorem Clear.bulkCalled {time : Nat} {orders : List P} (h : Clear e job tasks)
    (hjournal : e'.journal = ⟨time, .bulkCalled job orders⟩ :: e.journal) : Clear e' job tasks := by
  have hone : Adds (fun event => event = .bulkCalled job orders) e e' := .one hjournal rfl
  refine ⟨h.spare.cons hjournal ?_, h.ordered.adds hone (by simp), h.unanswered.adds hone (by simp),
    h.unsent.adds hone ?_⟩
  · intro y hy hbars
    generalize hevent : y.event = earlier at hbars
    cases hbars with
    | answered own traffic => exact h.unanswered y hy _ hevent
  · rintro event rfl _
    rfl

/-- A bulk call that comes back without items, or does not come back, changes nothing. -/
theorem Clear.bulkFailed {time : Nat} {answer : Option (BulkAnswer R)} (h : Clear e job tasks)
    (hfailed : ∀ items, answer ≠ some (.ok items))
    (hjournal : e'.journal = ⟨time, .bulkEnded job answer⟩ :: e.journal) : Clear e' job tasks := by
  have hone : Adds (fun event => event = .bulkEnded job answer) e e' := .one hjournal rfl
  refine ⟨h.spare.cons hjournal ?_, h.ordered.adds hone (by simp), h.unanswered.adds hone ?_,
    h.unsent.adds hone ?_⟩
  · intro y hy hbars
    generalize hevent : y.event = earlier at hbars
    generalize hlater : Event.bulkEnded (P := P) job answer = later at hbars
    cases hbars with
    | answered own traffic => exact h.unanswered y hy _ hevent
    | singly own single => exact hfailed _ (Event.bulkEnded.inj hlater).2
    | called => cases hlater
    | ended => cases hlater
  · rintro event rfl items hevent
    exact hfailed items (Event.bulkEnded.inj hevent).2
  · rintro event rfl _
    rfl

/-- The first answer to a bulk call is not too many where nothing has been sent singly. -/
theorem Clear.bulkAnswered {time : Nat} {items : List (Except DownstreamFailure R)}
    (h : Clear e job tasks)
    (hjournal : e'.journal = ⟨time, .bulkEnded job (some (.ok items))⟩ :: e.journal) :
    e'.Spare job ∧ e'.Ordered job tasks ∧ e'.Unsent job := by
  have hone : Adds (fun event => event = .bulkEnded job (some (.ok items))) e e' :=
    .one hjournal rfl
  refine ⟨h.spare.cons hjournal ?_, h.ordered.adds hone (by simp), h.unsent.adds hone ?_⟩
  · intro y hy hbars
    generalize hevent : y.event = earlier at hbars
    cases hbars with
    | answered own traffic => exact h.unanswered y hy _ hevent
    | singly own single =>
      have hnone := h.unsent y hy (hevent ▸ own)
      rw [hevent, single] at hnone
      cases hnone
  · rintro event rfl _
    rfl

end Clear

theorem heard_cases (e : Engine P R) {j : Job P R}
    (hunanswered : ∀ run items, ¬ BulkAnswered e j run items) :
    (e.heard j).journal = e.journal ∨ ∃ answer, (∀ items, answer ≠ some (.ok items)) ∧
      (e.heard j).journal = ⟨e.now, .bulkEnded j.number answer⟩ :: e.journal := by
  unfold heard
  split
  · rename_i run hstage
    unfold heardBulk
    split
    · exact Or.inl rfl
    · rename_i answer hreply
      refine Or.inr ⟨some answer, ?_, rfl⟩
      intro items hitems
      exact hunanswered run items ⟨hstage, hreply.trans (congrArg some hitems)⟩
    · exact Or.inr ⟨none, by simp, rfl⟩
  · exact Or.inl rfl

theorem heard_answered {e : Engine P R} {j : Job P R} {run : BulkRun R}
    {items : List (Except DownstreamFailure R)} (h : BulkAnswered e j run items) :
    (e.heard j).journal = ⟨e.now, .bulkEnded j.number (some (.ok items))⟩ :: e.journal := by
  simp only [heard, h.1, heardBulk, h.2]
  rfl

theorem Clear.heard {e : Engine P R} {j : Job P R} {tasks : List (BatchTask P)}
    (h : Clear e j.number tasks) (hunanswered : ∀ run items, ¬ BulkAnswered e j run items) :
    Clear (e.heard j) j.number tasks := by
  rcases heard_cases e hunanswered with hsame | ⟨answer, hfailed, hjournal⟩
  · exact h.aside (.nothing hsame)
  · exact h.bulkFailed hfailed hjournal

/-- All ways in which a submission goes on are careful. -/
theorem Ways.careful {origin : List (Entry P R)} {e : Engine P R} {job attempts : Nat}
    {a : Assignment P} {result : Engine P R × Stage P R} (h : Ways e job a attempts result)
    (hclear : Clear e job a.tasks) (huncut : Uncut job origin e.journal)
    (hnone : ∀ w ∈ e.workers, w.job ≠ job) : Careful origin result.1 job a result.2 := by
  cases h with
  | @refused e' ending paper refusal =>
    have hclear' := (hclear.aside (Paper.aside paper)).aside
      (conclude_stores e' job a ending).aside
    refine ⟨hclear'.spare, hclear'.ordered, ?_⟩
    rw [conclude_eq]
    exact .refused rfl refusal
  | @calls e' deadline paper submission =>
    have hclear' : Clear (e'.placeCall job a (attempts + 1) deadline).1 job a.tasks :=
      (hclear.aside (Paper.aside paper)).bulkCalled rfl
    have hcalled : Adds (fun event => event = .bulkCalled job a.orders) e'
        (e'.placeCall job a (attempts + 1) deadline).1 := .one rfl rfl
    have huncut' := (huncut.paper paper).adds hcalled (by simp)
    exact ⟨hclear'.spare, hclear'.ordered,
      .sending rfl hclear'.unanswered hclear'.unsent huncut'⟩
  | waits paper submission =>
    have hclear' := hclear.aside (Paper.aside paper)
    exact ⟨hclear'.spare, hclear'.ordered,
      .sending rfl hclear'.unanswered hclear'.unsent (huncut.paper paper)⟩
  | @opens e' breaker paper some valid admitted =>
    have hclear' : Clear (e'.setBreaker breaker) job a.tasks :=
      (hclear.aside (Paper.aside paper)).aside (.nothing rfl)
    have hnone' : ∀ w ∈ (e'.setBreaker breaker).workers, w.job ≠ job := by
      have hworkers : (e'.setBreaker breaker).workers = e.workers := paper.frame.floor.workers
      rwa [hworkers]
    have hnothing (q : Nat) (value : R) : ¬ (e'.setBreaker breaker).Answered job q value := by
      rintro ⟨stop, hmem⟩
      cases hclear'.unsent _ hmem rfl
    have haccounts := openChunk_accounts attempts valid hnone' hnothing
    have hearly : Uncut job origin e'.journal := huncut.paper paper
    have hopened : Clear ((e'.setBreaker breaker).openChunk job attempts (.whole a.tasks)).1 job
        a.tasks := hclear'.aside (.nothing rfl)
    exact ⟨hopened.spare, hopened.ordered, .batch haccounts hopened.unanswered
      (fun position _ => hopened.unsent.sent position) hearly⟩
  | empties paper none =>
    have hclear' := (hclear.aside (Paper.aside paper)).aside
      (answered_stores _ job a attempts .empty).aside
    exact ⟨hclear'.spare, hclear'.ordered, .idle none (answered_shows _ job a attempts .empty)⟩

/-- The workers of a new chunk begin behind the tasks that have begun. -/
theorem openChunk_position {e : Engine P R} {job attempts position' : Nat} {run : BatchRun P R}
    (h : (e.openChunk job attempts run).2.position? = some position') :
    run.position ≤ position' ∧ ∀ w ∈ (e.openChunk job attempts run).1.workers,
      w ∈ e.workers ∨ run.position ≤ w.position := by
  obtain rfl := Option.some.inj h
  refine ⟨Nat.le_add_right _ _, ?_⟩
  intro w hw
  rcases List.mem_append.mp hw with hw | hw
  · exact Or.inl hw
  · obtain ⟨i, _, hposition⟩ := mem_spawnWorkers hw
    exact Or.inr (by omega)

/-- While a batch is under way, the job itself has no traffic, and new workers begin behind the tasks
that have begun. -/
theorem Route.underway {e : Engine P R} {j : Job P R} {result : Engine P R × Stage P R}
    (h : Route e j result) {start : List (Entry P R)}
    (haccounts : Accounts e j.number j.assignment start j.stage) (hready : j.isReady e = true) :
    Adds (Aside j.number) e result.1 ∧ ∀ position', result.2.position? = some position' →
      ∃ position, j.stage.position? = some position ∧ position ≤ position' ∧
        ∀ w ∈ result.1.workers, w.job = j.number → w ∈ e.workers ∨ position ≤ w.position := by
  have hsettled := settled_aside e j.number j.number
  obtain ⟨number, a, stage, turn⟩ := j
  cases haccounts with
  | @joining attempts run tallied =>
    -- Of these turns, only the one that begins a chunk brings workers.
    have hjoins : Joins e number a attempts run result := h.onward
    cases hjoins with
    | @collects w found =>
      refine ⟨.nothing rfl, ?_⟩
      intro position' hposition'
      obtain rfl := Option.some.inj hposition'
      refine ⟨run.position, rfl, (noteOutcome_position run w.index w.outcome?).1.ge, ?_⟩
      exact fun v hv _ => Or.inl (List.mem_of_mem_filter hv)
    | pauses none some =>
      refine ⟨hsettled run, ?_⟩
      intro position' hposition'
      obtain rfl := Option.some.inj hposition'
      exact ⟨run.position, rfl, Nat.le_refl _,
        fun w hw hjob => absurd hjob (settled_gone e number run w hw)⟩
    | reopens none some =>
      refine ⟨(hsettled run).trans (.nothing rfl), ?_⟩
      intro position' hposition'
      obtain ⟨hle, hworkers⟩ := openChunk_position hposition'
      refine ⟨run.position, rfl, hle, ?_⟩
      intro w hw hjob
      exact (hworkers w hw).imp (fun hold => absurd hjob (settled_gone e number run w hold)) id
    | finishes none last =>
      refine ⟨(hsettled _).trans (answered_stores _ _ _ _ _).aside, ?_⟩
      intro position' hposition'
      rw [Stage.position?_of_shows (answered_shows _ _ _ _ _)] at hposition'
      cases hposition'
  | @pausing attempts due run tallied =>
    obtain rfl : result = e.openChunk number attempts run := h.onward
    refine ⟨.nothing rfl, ?_⟩
    intro position' hposition'
    obtain ⟨hle, hworkers⟩ := openChunk_position hposition'
    exact ⟨run.position, rfl, hle, fun w hw _ => hworkers w hw⟩
  | told shows told =>
    obtain ⟨hshows, hstores⟩ := h.shows shows hready
    refine ⟨hstores.aside, ?_⟩
    intro position' hposition'
    rw [Stage.position?_of_shows hshows] at hposition'
    cases hposition'

/-- All turns of a submission that has sent nothing singly and has no answer are careful. -/
theorem Route.careful {origin : List (Entry P R)} {e : Engine P R} {j : Job P R}
    {result : Engine P R × Stage P R} (h : Route e j result)
    (hclear : Clear e j.number j.assignment.tasks) (huncut : Uncut j.number origin e.journal)
    (hsending : j.stage.isSending = true) (hsubmission : j.assignment.isSubmission = true)
    (hnone : ∀ w ∈ e.workers, w.job ≠ j.number) :
    Careful origin result.1 j.number j.assignment result.2 := by
  cases h with
  | sends sender source unanswered hways =>
    refine hways.careful (hclear.heard unanswered) huncut.heard ?_
    rwa [heard_workers]
  | @miscounts run items answered wrong =>
    obtain ⟨hspare, hordered, _⟩ := hclear.bulkAnswered (heard_answered answered)
    have haside : Adds (Aside j.number) (e.heard j) _ :=
      (conclude_stores (e.heard j) j.number j.assignment (.ok (.error (.downstream
        (.miscounted items.length j.assignment.orders.length) false)))).aside
    refine ⟨hspare.aside haside, hordered.aside haside, ?_⟩
    rw [conclude_eq]
    exact .refused rfl rfl
  | @answers run items answered right =>
    obtain ⟨hspare, hordered, hunsent⟩ := hclear.bulkAnswered (heard_answered answered)
    have hreported : Paper j.number (e.heard j) ((e.heard j).report j.number .success) :=
      .single (.reports .success)
    have hstores := answered_stores ((e.heard j).report j.number .success) j.number j.assignment
      run.attempt { outcomes := items.map .ofItem }
    have haside : Adds (Aside j.number) (e.heard j) _ :=
      (Paper.aside hreported).trans hstores.aside
    refine ⟨hspare.aside haside, hordered.aside haside, ?_⟩
    have hthere : (⟨e.now, .bulkEnded j.number (some (.ok items))⟩ : Entry P R) ∈
        (((e.heard j).report j.number .success).answered j.number j.assignment run.attempt
          { outcomes := items.map .ofItem }).1.journal := by
      refine haside.old ?_
      rw [heard_answered answered]
      exact List.mem_cons_self
    exact .answered hthere (hunsent.aside haside) ((huncut.heard.paper hreported).stores hstores)
      (answered_shows _ _ _ _ _)
  | @idles due receipt source submission none empty =>
    have htasks : j.assignment.tasks = [] := by
      rw [Assignment.tasks_of_isSubmission submission, none]
      rfl
    refine ⟨hclear.spare, hclear.ordered, .idle htasks ?_⟩
    rcases empty with rfl | rfl <;> rfl
  | rejects source admission reviewed => exact ⟨hclear.spare, hclear.ordered, .refused rfl rfl⟩
  | writes source write =>
    rw [write] at hsubmission
    cases hsubmission
  | comes source occupation =>
    cases hassignment : j.assignment with
    | occupy stay =>
      rw [hassignment] at hsubmission
      cases hsubmission
    | _ =>
      rw [hassignment] at occupation
      cases occupation
  | holds hold before after =>
    rw [hold] at hsubmission
    cases hsubmission
  | proceeds source | occupies source | vacates source | resumes source
  | collects source found | pauses source none some | reopens source none some
  | finishes source none last =>
    rw [source] at hsending
    cases hsending

/-- **A turn of a submission is careful.** -/
theorem jobTurn_careful {origin : List (Entry P R)} {e : Engine P R} (hregular : e.Regular)
    {j : Job P R} (hj : j ∈ e.jobs) (hready : j.isReady e = true)
    (hsubmission : j.assignment.isSubmission = true)
    (h : Careful origin e j.number j.assignment j.stage) :
    Careful origin (e.jobTurn j).1 j.number j.assignment (e.jobTurn j).2 := by
  have hwf := hregular.reached.wellFormed
  have hroute := hregular.suited.route hwf hj hready
  have hshowing {r : BatchResult R} (shows : j.stage.Shows r) :
      (e.jobTurn j).2.Shows r ∧ Stores j.number e (e.jobTurn j).1 := hroute.shows shows hready
  cases h.standing with
  | sending source unanswered unsent uncut =>
    exact hroute.careful ⟨h.spare, h.ordered, unanswered, unsent⟩ uncut source hsubmission
      (hwf.no_workers hj (Stage.not_isJoining_of_isSending source))
  | batch accounts unanswered sent early =>
    obtain ⟨haside, hpositions⟩ := hroute.underway accounts hready
    refine ⟨h.spare.aside haside, h.ordered.aside haside,
      .batch (jobTurn_accounts hregular hj hready accounts) (unanswered.aside haside) ?_ early⟩
    intro position' hposition'
    obtain ⟨position, hposition, hle, hworkers⟩ := hpositions position' hposition'
    exact (sent position hposition).grow hle hworkers haside
  | answered answer unsent uncut shows =>
    obtain ⟨hshows, hstores⟩ := hshowing shows
    exact ⟨h.spare.aside hstores.aside, h.ordered.aside hstores.aside,
      .answered (hstores.journal.old answer) (unsent.aside hstores.aside) (uncut.stores hstores)
        hshows⟩
  | idle none shows =>
    obtain ⟨hshows, hstores⟩ := hshowing shows
    exact ⟨h.spare.aside hstores.aside, h.ordered.aside hstores.aside, .idle none hshows⟩
  | refused source refusal =>
    rw [Job.isReady, source] at hready
    cases hready

/-! ### Moves -/

/-- The traffic of every submission is careful. -/
def Cautious (origin : List (Entry P R)) (e : Engine P R) : Prop :=
  ∀ j ∈ e.jobs, j.assignment.isSubmission = true → Careful origin e j.number j.assignment j.stage

/-- **Every move keeps the traffic of all submissions careful.** -/
theorem Move.cautious {origin : List (Entry P R)} {e e' : Engine P R} (hmove : Move e e')
    (hregular : e.Regular) (h : Cautious origin e) : Cautious origin e' := by
  have hwf := hregular.reached.wellFormed
  intro k hk hsubmission
  cases hmove.happens hwf hregular.suited hk with
  | elsewhere same helse =>
    have hwf' := (hmove.regular hregular).reached.wellFormed
    exact (h k same hsubmission).frame (helse.workersOf hwf hwf') helse
  | @worker w same member own ready next =>
    subst next
    have hcareful := h k same hsubmission
    have hjoining := hwf.isJoining same member own
    have htells := hregular.reached.truthful k same
    obtain ⟨number, a, stage, turn⟩ := k
    cases stage with
    | joining attempts run => exact serveWorker_careful hwf htells hcareful member own ready
    | _ => cases hjoining
  | @turn j member ready moved next =>
    subst moved next
    have hserved := jobTurn_careful hregular member ready hsubmission (h j member hsubmission)
    exact hserved.frame (.refl _) ⟨fun _ _ => Iff.rfl, .nothing rfl⟩

theorem Course.cautious {origin : List (Entry P R)} {e e' : Engine P R} (hcourse : Course e e')
    (hregular : e.Regular) (h : Cautious origin e) : Cautious origin e' := by
  have hboth := hcourse.keeps (I := fun e₁ => e₁.Regular ∧ Cautious origin e₁)
    (fun hmove hi => ⟨hmove.regular hi.1, hmove.cautious hi.1 hi.2⟩) ⟨hregular, h⟩
  exact hboth.2

theorem AtRest.clear {e : Engine P R} (hrest : e.AtRest) {assignments : List (Nat × Assignment P)}
    {j : Job P R} (hj : j ∈ (e.addJobs assignments).unturned.jobs) (tasks : List (BatchTask P)) :
    Clear (e.addJobs assignments).unturned j.number tasks := by
  obtain ⟨i, _, _, _, hnumber⟩ := hrest.exists_assignment .refl hj
  have hjournal : (e.addJobs assignments).unturned.journal = e.journal := by
    rw [addJobs_eq]
    rfl
  -- What has been exchanged so far was for jobs of lower numbers.
  have hnone {x : Entry P R} (hx : x ∈ (e.addJobs assignments).unturned.journal)
      {event : Event P R} (hevent : x.event = event) (hjob : event.job = j.number) :
      event.isExchange ≠ true := by
    subst hevent
    intro hexchange
    have hpast := hrest.past x (List.mem_filter.mpr ⟨hjournal ▸ hx, hexchange⟩)
    omega
  refine ⟨List.pairwise_of_forall_mem_list ?_, ?_, ?_, ?_⟩
  · intro later _ earlier hearlier hbars
    exact hnone hearlier rfl hbars.earlier.1 hbars.earlier.2
  · intro x hx q payload inFlight hevent
    exact absurd rfl (hnone hx hevent rfl)
  · intro x hx items hevent
    exact hnone hx hevent rfl rfl
  · intro x hx hjob
    by_contra hsingle
    exact hnone hx rfl hjob (Event.isExchange_of_isSingle (by simpa using hsingle))

theorem AtRest.cautious {e : Engine P R} (hrest : e.AtRest)
    (assignments : List (Nat × Assignment P)) :
    Cautious (e.addJobs assignments).unturned.journal (e.addJobs assignments).unturned := by
  intro j hj _
  obtain ⟨due, hstage⟩ := hrest.arriving hj
  have hclear := hrest.clear hj j.assignment.tasks
  exact ⟨hclear.spare, hclear.ordered,
    .sending (by rw [hstage]; rfl) hclear.unanswered hclear.unsent ⟨[], rfl, nofun⟩⟩

end Engine

/-! ### What comes of a submission -/

theorem countP_le_one {α : Type} {p : α → Bool} {l : List α}
    (h : l.Pairwise fun x y => ¬ (p x = true ∧ p y = true)) : l.countP p ≤ 1 := by
  induction h with
  | nil => exact Nat.zero_le _
  | @cons x rest hfirst _ ih =>
    by_cases hx : p x = true
    · have hnone : rest.countP p = 0 :=
        List.countP_eq_zero.mpr fun y hy hpy => hfirst y hy ⟨hx, hpy⟩
      rw [List.countP_cons_of_pos hx, hnone]
    · rwa [List.countP_cons_of_neg hx]

/-- The calls and answers of a submission, the earliest first: none of them is one too many. -/
structure Frugal (events : List (Entry P R)) (job : Nat) (orders : List P) : Prop where
  /-- A bulk call is for all orders. -/
  whole : ∀ x ∈ events, ∀ sent, x.event = .bulkCalled job sent → sent = orders
  /-- A call for one order has it in its place. -/
  single : ∀ x ∈ events, ∀ place order inFlight,
    x.event = .singleCalled job place order inFlight → orders[place]? = some order
  /-- After an answer to a bulk call, there are no calls. -/
  final : events.Pairwise fun earlier later =>
    ∀ items, earlier.event = .bulkEnded job (some (.ok items)) → later.event.job = job →
      later.event.isCall = false
  /-- If a bulk call is answered, there are no calls for one order at all. -/
  exclusive : ∀ x ∈ events, ∀ items, x.event = .bulkEnded job (some (.ok items)) →
    ∀ y ∈ events, y.event.job = job → y.event.isSingle = false
  /-- No order is sent singly twice. -/
  once : ∀ place, events.countP (·.event.calls job place) ≤ 1
  /-- No order is acknowledged twice. -/
  acknowledged : ∀ place, events.countP (fun x => (x.event.ack? job place).isSome) ≤ 1

/-- A result has one outcome for each order, and a success in the place of an order if and only if the
order has been acknowledged and its task was not cut off with its chunk. -/
structure Places (events : List (Entry P R)) (job : Nat) (orders : List P) (r : BatchResult R) :
    Prop where
  length : r.outcomes.length = orders.length
  success : ∀ place < orders.length, ∀ value, r.outcomes[place]? = some (.success value) ↔
    (∃ x ∈ events, x.event.ack? job place = some value) ∧
      ∀ x ∈ events, ∀ told, x.event ≠ .cutOff job place told

namespace Engine

theorem Spare.eq_of_bars {e : Engine P R} {job : Nat} (h : e.Spare job) {x y : Entry P R}
    (hx : x ∈ e.journal) (hy : y ∈ e.journal) (hxy : Event.Bars job x.event y.event)
    (hyx : Event.Bars job y.event x.event) : x = y := by
  by_contra hne
  have hsymm : Std.Symm fun x y : Entry P R =>
      ¬ (Event.Bars job x.event y.event ∧ Event.Bars job y.event x.event) :=
    ⟨fun _ _ hnot hboth => hnot hboth.symm⟩
  have hnever : e.journal.Pairwise fun x y =>
      ¬ (Event.Bars job x.event y.event ∧ Event.Bars job y.event x.event) :=
    h.imp fun hspare hboth => hspare hboth.2
  exact hnever.forall hx hy hne ⟨hxy, hyx⟩

theorem bars_of_ack? {job place : Nat} {earlier later : Event P R} {value value' : R}
    (hearlier : earlier.ack? job place = some value) (hlater : later.ack? job place = some value') :
    Event.Bars job earlier later := by
  rcases Event.ack?_eq_some.mp hearlier with ⟨items, rfl, _⟩ | rfl
  · rcases Event.ack?_eq_some.mp hlater with ⟨items', rfl, _⟩ | rfl
    · exact .answered rfl rfl
    · exact .answered rfl rfl
  · rcases Event.ack?_eq_some.mp hlater with ⟨items', rfl, _⟩ | rfl
    · exact .singly rfl rfl
    · exact .ended

theorem bars_of_calls {job place : Nat} {earlier later : Event P R}
    (hearlier : earlier.calls job place = true) (hlater : later.calls job place = true) :
    Event.Bars job earlier later := by
  cases earlier with
  | singleCalled k position payload inFlight =>
    cases later with
    | singleCalled k' position' payload' inFlight' =>
      simp only [Event.calls, Bool.and_eq_true, beq_iff_eq] at hearlier hlater
      obtain ⟨rfl, rfl⟩ := hearlier
      obtain ⟨rfl, rfl⟩ := hlater
      exact .called
    | _ => cases hlater
  | _ => cases hearlier

/-- Careful traffic is frugal. -/
theorem Careful.frugal {origin : List (Entry P R)} {e e' : Engine P R} {job : Nat}
    {a : Assignment P} {stage : Stage P R} (h : Careful origin e' job a stage)
    (hsubmission : a.isSubmission = true)
    (hwhole : Adds (fun event => ∀ sent, event = .bulkCalled job sent → sent = a.orders) e e') :
    Frugal (e'.since e.journal.length) job a.orders := by
  obtain ⟨added, hjournal, hp⟩ := hwhole
  have hmem {x : Entry P R} (hx : x ∈ added.reverse) : x ∈ e'.journal := by
    rw [hjournal]
    exact List.mem_append_left _ (List.mem_reverse.mp hx)
  -- The journal has the latest first, and what has happened since the earliest first.
  have hspare : added.reverse.Pairwise fun earlier later =>
      ¬ Event.Bars job earlier.event later.event := by
    have hspare := h.spare
    rw [Spare, hjournal, List.pairwise_append] at hspare
    exact List.pairwise_reverse.mpr hspare.1
  rw [since_eq hjournal]
  refine ⟨?_, ?_, ?_, ?_, ?_, ?_⟩
  · exact fun x hx => hp x (List.mem_reverse.mp hx)
  · intro x hx place order inFlight hevent
    obtain ⟨t, ht, rfl⟩ := h.ordered x (hmem hx) place order inFlight hevent
    rw [Assignment.tasks_of_isSubmission hsubmission, getElem?_ofPayloads,
      Option.map_eq_some_iff] at ht
    obtain ⟨order, horder, rfl⟩ := ht
    exact horder
  · refine hspare.imp ?_
    intro earlier later hnot items hearlier hjob
    cases hcall : later.event.isCall with
    | false => rfl
    | true =>
      rw [hearlier] at hnot
      exact absurd (.answered hjob (Event.isTraffic_of_isCall hcall)) hnot
  · intro x hx items hevent y hy hjob
    cases hsingle : y.event.isSingle with
    | false => rfl
    | true =>
      have hxy : Event.Bars job x.event y.event := by
        rw [hevent]
        exact .answered hjob (Event.isTraffic_of_isSingle hsingle)
      have hyx : Event.Bars job y.event x.event := by
        rw [hevent]
        exact .singly hjob hsingle
      have hsame := h.spare.eq_of_bars (hmem hx) (hmem hy) hxy hyx
      rw [← hsame, hevent] at hsingle
      cases hsingle
  · intro place
    refine countP_le_one (hspare.imp ?_)
    rintro earlier later hnot ⟨hearlier, hlater⟩
    exact hnot (bars_of_calls hearlier hlater)
  · intro place
    refine countP_le_one (hspare.imp ?_)
    rintro earlier later hnot ⟨hearlier, hlater⟩
    obtain ⟨value, hvalue⟩ := Option.isSome_iff_exists.mp hearlier
    obtain ⟨value', hvalue'⟩ := Option.isSome_iff_exists.mp hlater
    exact hnot (bars_of_ack? hvalue hvalue')

/-- What a receipt has as its result is a result in which each task has its outcome in its own place. -/
theorem EndTells.reported {e : Engine P R} {job : Nat} {a : Assignment P} {receipt : Receipt R}
    (h : EndTells e job a (.ok (.ok receipt))) {r : BatchResult R}
    (hresult : receipt.result? = some r) : Reported e job a r := by
  cases receipt with
  | batch r' =>
    obtain rfl := Option.some.inj hresult
    exact h
  | submission outcome =>
    obtain rfl := Option.some.inj hresult
    exact h
  | _ => cases hresult

/-- A success in the result of a submission is an acknowledgement of the order in this place. -/
theorem Reported.ack {e : Engine P R} {job : Nat} {a : Assignment P} {r : BatchResult R}
    (h : Reported e job a r) (hsubmission : a.isSubmission = true) {place : Nat} {value : R}
    (hsuccess : r.outcomes[place]? = some (.success value)) :
    ∃ x ∈ e.exchanges, x.event.ack? job place = some value := by
  obtain ⟨q, t, ht, rfl, hfate⟩ := h.place hsuccess
  rw [Assignment.tasks_of_isSubmission hsubmission, getElem?_ofPayloads,
    Option.map_eq_some_iff] at ht
  obtain ⟨order, _, rfl⟩ := ht
  rcases hfate with hfate | ⟨time, items, item, hentry, _, hitem, houtcome⟩
  · cases hfate with
    | succeeded began inTime back =>
      exact ⟨_, back, Event.ack?_eq_some.mpr (Or.inr rfl)⟩
  · cases item with
    | error failure => cases houtcome
    | ok value' =>
      obtain rfl : value = value' := Outcome.success.inj houtcome
      exact ⟨_, hentry, Event.ack?_eq_some.mpr (Or.inl ⟨items, rfl, hitem⟩)⟩

/-- A submission that has ended with a receipt has a result, and an acknowledgement of it is in its place
if and only if the task was not cut off. -/
theorem Careful.result {origin : List (Entry P R)} {e : Engine P R} {job : Nat} {a : Assignment P}
    {time : Nat} {receipt : Receipt R} (h : Careful origin e job a (.finished time (.ok (.ok receipt))))
    (hsubmission : a.isSubmission = true) :
    ∃ r, receipt.result? = some r ∧ ∀ place < a.orders.length, ∀ value,
      ((∃ x ∈ e.journal, x.event.ack? job place = some value) →
        r.outcomes[place]? = some (.success value) ∨ e.CutOff job origin place) ∧
      (e.CutOff job origin place → r.outcomes[place]? ≠ some (.success value)) := by
  have htask {place : Nat} (hplace : place < a.orders.length) :
      a.tasks[place]? = some ⟨place, a.orders[place]⟩ := by
    rw [Assignment.tasks_of_isSubmission hsubmission, getElem?_ofPayloads,
      List.getElem?_eq_getElem hplace]
    rfl
  cases h.standing with
  | sending source unanswered unsent uncut => cases source
  | batch accounts unanswered sent early =>
    cases accounts with
    | @told stage r shows told =>
      refine ⟨r, shows, ?_⟩
      intro place hplace value
      rw [early.cutOff told.grown]
      constructor
      · rintro ⟨x, hx, hack⟩
        rcases Event.ack?_eq_some.mp hack with ⟨items, hevent, _⟩ | hevent
        · exact absurd hevent (unanswered x hx items)
        · exact told.answers place _ value (htask hplace) ⟨x.time, hevent ▸ hx⟩
      · intro hcut
        rw [told.cut place _ (htask hplace) hcut]
        simp
  | @answered time items stage answer unsent uncut shows =>
    refine ⟨_, shows, ?_⟩
    intro place hplace value
    refine ⟨?_, fun hcut => absurd hcut uncut.not_cutOff⟩
    rintro ⟨x, hx, hack⟩
    rcases Event.ack?_eq_some.mp hack with ⟨items', hevent, hitem⟩ | hevent
    · -- There is only one answer to a bulk call.
      refine Or.inl ?_
      have hsame := h.spare.eq_of_bars hx answer
        (by rw [hevent]; exact .answered rfl rfl) (.answered (by rw [hevent]; rfl)
          (by rw [hevent]; rfl))
      rw [hsame] at hevent
      obtain rfl : items = items' := by simpa using hevent
      rw [List.getElem?_map, hitem]
      rfl
    · have hnone := unsent x hx (by rw [hevent]; rfl)
      rw [hevent] at hnone
      cases hnone
  | idle none shows =>
    refine ⟨_, shows, ?_⟩
    intro place hplace
    have hthere := htask hplace
    rw [none] at hthere
    cases hthere
  | refused source refusal =>
    cases source
    cases refusal

theorem Careful.places {e e' : Engine P R} {job : Nat} {a : Assignment P} {time : Nat}
    {receipt : Receipt R} (h : Careful e.journal e' job a (.finished time (.ok (.ok receipt))))
    (htells : EndTells e' job a (.ok (.ok receipt))) (hsubmission : a.isSubmission = true)
    {p : Event P R → Prop} (hadds : Adds p e e')
    (hpast : ∀ x ∈ e.exchanges, x.event.job ≠ job) :
    ∃ r, receipt.result? = some r ∧ Places (e'.since e.journal.length) job a.orders r := by
  obtain ⟨r, hresult, hanswers⟩ := h.result hsubmission
  have hreported := htells.reported hresult
  obtain ⟨added, hjournal, _⟩ := hadds
  rw [since_eq hjournal]
  refine ⟨r, hresult, ?_, ?_⟩
  · rw [hreported.length, Assignment.tasks_of_isSubmission hsubmission]
    simp [BatchTask.ofPayloads]
  · intro place hplace value
    obtain ⟨hplaced, hlost⟩ := hanswers place hplace value
    constructor
    · intro hsuccess
      constructor
      · obtain ⟨x, hx, hack⟩ := hreported.ack hsubmission hsuccess
        obtain ⟨hx, hexchange⟩ := List.mem_filter.mp hx
        refine ⟨x, List.mem_reverse.mpr ?_, hack⟩
        -- What was there before is not of this job.
        rw [hjournal] at hx
        refine (List.mem_append.mp hx).resolve_right fun hold => ?_
        refine hpast x (List.mem_filter.mpr ⟨hold, hexchange⟩) ?_
        rcases Event.ack?_eq_some.mp hack with ⟨items, hevent, _⟩ | hevent
        · rw [hevent]
          rfl
        · rw [hevent]
          rfl
      · intro x hx told hevent
        exact hlost ⟨added, hjournal, x, List.mem_reverse.mp hx, told, hevent⟩ hsuccess
    · rintro ⟨⟨x, hx, hack⟩, huncut⟩
      refine (hplaced ⟨x, ?_, hack⟩).resolve_right ?_
      · rw [hjournal]
        exact List.mem_append_left _ (List.mem_reverse.mp hx)
      · rintro ⟨added', hjournal', y, hy, told, hevent⟩
        obtain rfl : added' = added := List.append_cancel_right (hjournal'.symm.trans hjournal)
        exact huncut y (List.mem_reverse.mpr hy) told hevent

/-- What a submission has sent on a course is frugal, and if it has ended with a receipt, the result has
its acknowledgements in their places. -/
theorem Course.acknowledged {e e' : Engine P R} (hrest : e.AtRest)
    {assignments : List (Nat × Assignment P)} (hcourse : Course (e.addJobs assignments).unturned e')
    {j : Job P R} (hj : j ∈ e'.jobs) (hsubmission : j.assignment.isSubmission = true) :
    Frugal (e'.since e.journal.length) j.number j.assignment.orders ∧
      ∀ time receipt, j.ending? = some (time, .ok (.ok receipt)) → ∃ r,
        receipt.result? = some r ∧
        Places (e'.since e.journal.length) j.number j.assignment.orders r := by
  have hregular := hrest.regular assignments
  have hwf := hregular.reached.wellFormed
  have hjournal : (e.addJobs assignments).unturned.journal = e.journal := by
    rw [addJobs_eq]
    rfl
  have hcareful := Course.cautious hcourse hregular (hrest.cautious assignments) j hj hsubmission
  have hwhole : Adds (fun event => ∀ sent, event = .bulkCalled j.number sent →
      sent = j.assignment.orders) (e.addJobs assignments).unturned e' := by
    have hmem : (j.number, j.assignment) ∈ (e.addJobs assignments).unturned.roster := by
      rw [← Course.roster hcourse hwf]
      exact List.mem_map_of_mem hj
    exact (Course.whole hcourse hwf hregular.suited).mono fun _ hevent => hevent _ hmem
  rw [← hjournal]
  refine ⟨hcareful.frugal hsubmission hwhole, ?_⟩
  intro time receipt hending
  have htells := (Course.regular hcourse hregular).reached.truthful j hj
  rw [ending?_eq_some hending] at hcareful htells
  refine hcareful.places htells hsubmission hwhole ?_
  intro x hx hjob
  rw [exchanges, hjournal] at hx
  have hpast := hrest.past x hx
  obtain ⟨i, _, _, _, hnumber⟩ := hrest.exists_assignment hcourse hj
  omega

/-- **No order is acknowledged twice.** On every course and for every submission in it: after an answer
to a bulk call the submission makes no calls, if a bulk call is answered it sends no order singly, and
it sends no order singly twice; so that of all its calls at most one returns an acknowledgement for an
order. If it ends with a receipt, the result has one outcome for each order, and a success in the place
of an order if and only if the order has been acknowledged and its task was not cut off before it ended.
The same holds of what is performed, for each submission in it. -/
theorem acknowledged_at_most_once {e : Engine P R} (hrest : e.AtRest)
    (assignments : List (Nat × Assignment P)) :
    (∀ e' j, Course (e.addJobs assignments).unturned e' → j ∈ e'.jobs →
      j.assignment.isSubmission = true →
      Frugal (e'.since e.journal.length) j.number j.assignment.orders ∧
        ∀ time receipt, j.ending? = some (time, .ok (.ok receipt)) → ∃ r,
          receipt.result? = some r ∧
          Places (e'.since e.journal.length) j.number j.assignment.orders r) ∧
    ∀ i wait a, assignments[i]? = some (wait, a) → a.isSubmission = true →
      Frugal ((e.perform assignments).1.since e.journal.length) (e.nextNumber + i) a.orders ∧
        ∃ time ending, (e.perform assignments).2[i]? = some (some (time, ending)) ∧
          ∀ receipt, ending = .ok (.ok receipt) → ∃ r, receipt.result? = some r ∧
            Places ((e.perform assignments).1.since e.journal.length) (e.nextNumber + i) a.orders
              r := by
  refine ⟨fun _ _ hcourse hj hsubmission => Course.acknowledged hrest hcourse hj hsubmission, ?_⟩
  intro i wait a hassigned hsubmission
  obtain ⟨done, hcourse, hsettled, hwf', hdone, hendings⟩ := perform_course hrest assignments
  obtain ⟨j, hj, hnumber, rfl⟩ := hrest.exists_job hcourse hassigned
  have hmem := List.mem_of_getElem? hj
  have hsince : (e.perform assignments).1.since e.journal.length =
      done.since e.journal.length := by
    have hsame := congrArg (·.since e.journal.length) hdone
    exact hsame
  have hoccupation : j.assignment.isOccupation = false := by
    cases hassignment : j.assignment with
    | occupy stay =>
      rw [hassignment] at hsubmission
      cases hsubmission
    | _ => rfl
  obtain ⟨time, ending, hstage⟩ := hsettled.finished hwf' hmem hoccupation
  obtain ⟨hfrugal, hplaces⟩ := Course.acknowledged hrest hcourse hmem hsubmission
  rw [hsince, ← hnumber]
  refine ⟨hfrugal, time, ending, ?_, ?_⟩
  · rw [hendings, List.getElem?_map, hj, Option.map_some, Job.ending?, hstage]
  · rintro receipt rfl
    exact hplaces time receipt (by rw [Job.ending?, hstage])

/-- An order is acknowledged when its chunk has taken as long as it may, and its task is cut off before it
ends: the result has a failure in the place of the order. -/
theorem acknowledged_order_cut_off :
    let desk : Desk (Conduct (Except DownstreamFailure Nat)) Nat :=
      { Desk.forTasks Nat { maxConcurrency := 1, permitTimeout := 0, taskTimeout := 5 } with
        fallback := { bulkEnabled := false } }
    let e := begun desk {} {} none [] 0
    let orders := [.answers 5 (.ok 7)]
    let start := (e.addJobs [(0, .submit orders)]).unturned
    e.AtRest ∧ ∃ done, Course start done ∧ ∃ j ∈ done.jobs, j.assignment = .submit orders ∧
      Frugal (done.since 0) j.number orders ∧ ∃ time receipt r,
        j.ending? = some (time, .ok (.ok receipt)) ∧ receipt.result? = some r ∧
        Places (done.since 0) j.number orders r ∧
        (∃ x ∈ done.since 0, x.event.ack? j.number 0 = some 7) ∧
        r.outcomes[0]? = some (.failure chunkTimeoutReason) := by
  intro desk e orders start
  have hrest : e.AtRest := begun_atRest _ _ _ _ _ _
  let arriving : Job (Conduct (Except DownstreamFailure Nat)) Nat := newJob 0 0 (.submit orders)
  let fresh : Worker (Conduct (Except DownstreamFailure Nat)) Nat :=
    { number := 1, job := 0, position := 0, index := 0, payload := .answers 5 (.ok 7)
      phase := .fresh, turn := none }
  -- The worker makes its call, the clock moves to the deadline, and the worker is served first.
  let begun := start.serveJob arriving
  let joining := { arriving with stage := (start.jobTurn arriving).2 }
  let called := begun.serveWorker fresh
  let working := { fresh with phase := (begun.workerTurn fresh).2 }
  let late := { called with now := 5 }
  let told := late.serveWorker working
  let done := told.serveJob joining
  let ended := { joining with stage := (told.jobTurn joining).2 }
  have hbegun : Move start begun := .job List.mem_cons_self rfl
  have hcalled : Move begun called := .worker List.mem_cons_self rfl
  have hquiet : called.Quiet := ⟨by decide +kernel, by decide +kernel⟩
  have hlate : Move called late := .tick hquiet rfl
  have htold : Move late told := .worker List.mem_cons_self rfl
  have hdone : Move told done := .job List.mem_cons_self rfl
  have hcourse : Course start done :=
    ((((Relation.ReflTransGen.single hbegun).tail hcalled).tail hlate).tail htold).tail hdone
  have hmem : ended ∈ done.jobs := List.mem_cons_self
  have hack : ∃ x ∈ done.since 0, x.event.ack? 0 0 = some 7 := by decide +kernel
  obtain ⟨hfrugal, hplaces⟩ :=
    (acknowledged_at_most_once hrest [(0, .submit orders)]).1 done ended hcourse hmem rfl
  obtain ⟨r, hresult, hplaces⟩ := hplaces 5 _ rfl
  refine ⟨hrest, done, hcourse, ended, hmem, rfl, hfrugal, 5, _, r, rfl, hresult, hplaces, hack, ?_⟩
  obtain rfl := Option.some.inj hresult
  rfl

end Engine

end OrderAdmission
