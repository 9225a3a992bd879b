import OrderAdmission.Proofs.Booking

/-!
# What the stage of a job tells

From the stage of a job one can tell what has come back from the service on its behalf, and what its
outcomes say.

`Tells` puts it in one predicate. Before the first chunk of a job and while it waits for a bulk call,
no order of it has been acknowledged. While a chunk is at work its places are booked. Whatever result
a job comes to has what became of each task in the place of the task. And a job that may be sent again
after an error has acknowledged orders exactly if its status write was cut off.

What others do to an engine changes nothing of this (`Tells.frame`).
-/
namespace OrderAdmission

variable {P R : Type}

/-! ### Acknowledgements -/

def Event.isAcknowledgement : Event P R → Bool
  | .bulkEnded _ (some (.ok items)) => items.any (·.isOk)
  | .singleEnded _ _ (some (.ok _)) => true
  | _ => false

/-- A desk at which statuses go to the table of the engine, and where no refusal of a batch invites
to send it again. -/
structure Desk.Plain (desk : Desk P R) : Prop where
  table : ∃ latency, desk.store = .table latency
  review : ∀ orders error, desk.review orders = .error error → error.retryable = false

namespace Engine

/-- Some call of the job has returned an acknowledgement. -/
def Acked (e : Engine P R) (job : Nat) : Prop :=
  ∃ x ∈ e.exchanges, x.event.job = job ∧ x.event.isAcknowledgement = true

/-- The outcome stands for the item of a task in the answer to a bulk call. -/
def InBulk (e : Engine P R) (job : Nat) (a : Assignment P) (position : Nat) (outcome : Outcome R) :
    Prop :=
  ∃ time items item, (⟨time, .bulkEnded job (some (.ok items))⟩ : Entry P R) ∈ e.exchanges ∧
    items.length = a.orders.length ∧ items[position]? = some item ∧ outcome = .ofItem item

/-- A result in which each task has its outcome in its own place. -/
structure Reported (e : Engine P R) (job : Nat) (a : Assignment P) (r : BatchResult R) : Prop where
  valid : checkTasks a.tasks = .ok ()
  length : r.outcomes.length = a.tasks.length
  fates : ∀ q t, a.tasks[q]? = some t → ∃ o, r.outcomes[t.index]? = some o ∧
    (Fate e job q t.payload o ∨ e.InBulk job a q o)

theorem InBulk.not_pending {e : Engine P R} {job position : Nat} {a : Assignment P}
    {outcome : Outcome R} (h : e.InBulk job a position outcome) : outcome ≠ .pending := by
  obtain ⟨time, items, item, _, _, _, rfl⟩ := h
  cases item <;> simp [Outcome.ofItem]

theorem InBulk.mono {e e' : Engine P R} {job position : Nat} {a : Assignment P}
    {outcome : Outcome R} (h : e.InBulk job a position outcome) (hgrown : Grown e e') :
    e'.InBulk job a position outcome := by
  obtain ⟨time, items, item, hentry, hrest⟩ := h
  exact ⟨time, items, item, hgrown.exchanges _ hentry, hrest⟩

theorem Reported.mono {e e' : Engine P R} {job : Nat} {a : Assignment P} {r : BatchResult R}
    (h : Reported e job a r) (hgrown : Grown e e') : Reported e' job a r := by
  refine ⟨h.valid, h.length, ?_⟩
  intro q t ht
  obtain ⟨o, ho, hfate⟩ := h.fates q t ht
  exact ⟨o, ho, hfate.imp (·.mono hgrown) (·.mono hgrown)⟩

/-- The outcome in each place is that of the task of the place. -/
theorem Reported.place {e : Engine P R} {job : Nat} {a : Assignment P} {r : BatchResult R}
    (h : Reported e job a r) {i : Nat} {o : Outcome R} (ho : r.outcomes[i]? = some o) :
    ∃ q t, a.tasks[q]? = some t ∧ t.index = i ∧
      (Fate e job q t.payload o ∨ e.InBulk job a q o) := by
  have hi : i < a.tasks.length := h.length ▸ (List.getElem?_eq_some_iff.mp ho).1
  obtain ⟨q, t, ht, rfl⟩ := exists_task h.valid hi
  obtain ⟨o', ho', hfate⟩ := h.fates q t ht
  obtain rfl : o' = o := Option.some.inj (ho'.symm.trans ho)
  exact ⟨q, t, ht, rfl, hfate⟩

theorem Reported.not_pending {e : Engine P R} {job : Nat} {a : Assignment P} {r : BatchResult R}
    (h : Reported e job a r) : ∀ o ∈ r.outcomes, o ≠ .pending := by
  intro o ho
  obtain ⟨i, hi⟩ := List.getElem?_of_mem ho
  obtain ⟨q, t, _, _, hfate⟩ := h.place hi
  rcases hfate with hfate | hbulk
  · exact hfate.not_pending
  · exact hbulk.not_pending

theorem Reported.acked {e : Engine P R} {job : Nat} {a : Assignment P} {r : BatchResult R}
    (h : Reported e job a r) {i : Nat} {value : R}
    (hsuccess : r.outcomes[i]? = some (.success value)) : e.Acked job := by
  obtain ⟨q, t, _, _, hfate | hbulk⟩ := h.place hsuccess
  · cases hfate with
    | succeeded began inTime back => exact ⟨_, back, rfl, rfl⟩
  · obtain ⟨time, items, item, hentry, _, hitem, houtcome⟩ := hbulk
    cases item with
    | error failure => cases houtcome
    | ok value' =>
      refine ⟨_, hentry, rfl, ?_⟩
      simp only [Event.isAcknowledgement, List.any_eq_true]
      exact ⟨_, List.mem_of_getElem? hitem, rfl⟩

theorem mem_successes {r : BatchResult R} {i : Nat} {value : R} :
    (i, value) ∈ r.successes ↔ r.outcomes[i]? = some (.success value) := by
  simp only [BatchResult.successes, List.mem_filterMap, Prod.exists, List.mem_zipIdx_iff_getElem?,
    Option.map_eq_some_iff, Prod.mk.injEq]
  constructor
  · rintro ⟨o, k, ho, v, hv, rfl, rfl⟩
    cases o with
    | success v' =>
      obtain rfl : v' = v := Option.some.inj hv
      exact ho
    | pending => cases hv
    | failure reason => cases hv
  · intro h
    exact ⟨_, _, h, value, rfl, rfl, rfl⟩

theorem Reported.acked_of_successes {e : Engine P R} {job : Nat} {a : Assignment P}
    {r : BatchResult R} (h : Reported e job a r) (hsome : r.successes ≠ []) : e.Acked job := by
  obtain ⟨⟨i, value⟩, hmem⟩ := List.exists_mem_of_ne_nil _ hsome
  exact h.acked (mem_successes.mp hmem)

/-! ### What a stage tells -/

/-- What is known of a job that has ended. -/
def EndTells (e : Engine P R) (job : Nat) (a : Assignment P) : Ending R → Prop
  | .ok (.ok (.batch r)) => Reported e job a r
  | .ok (.ok (.submission outcome)) => Reported e job a outcome.result
  | .ok (.error error) => a.isAdmission = true → e.desk.Plain → error.retryable = true →
      (e.Acked job ↔ error = .writeTimeout e.desk.persistence.transactionTimeout)
  | _ => True

end Engine

/-- On the table of an engine, a transaction waits for the table or for a statement. -/
def WriteRun.OnTable (run : WriteRun) : Prop := run.step = .queued ∨ ∃ due, run.step = .stating due

namespace Engine

/-- What is known of a job from its stage. -/
def Tells (e : Engine P R) (job : Nat) (a : Assignment P) : Stage P R → Prop
  | .arriving _ => ¬ e.Acked job
  | .calling _ => a.tasks = BatchTask.ofPayloads a.orders ∧ ¬ e.Acked job
  | .backingOff _ _ _ => a.tasks = BatchTask.ofPayloads a.orders ∧ ¬ e.Acked job
  | .joining _ run => Booked e job a.tasks run
  | .pausing _ run _ => Closed e job a.tasks run
  | .writing (some r) run =>
      Reported e job a r ∧ r.successes ≠ [] ∧ (e.desk.Plain → run.OnTable)
  | .writing none _ => a.isAdmission = false
  | .finished _ ending => EndTells e job a ending
  | _ => True

theorem acked_of_added {e e' : Engine P R} {job : Nat} {added : List (Entry P R)}
    (hadded : e'.exchanges = added ++ e.exchanges) (hothers : ∀ x ∈ added, x.event.job ≠ job) :
    e'.Acked job ↔ e.Acked job := by
  simp only [Acked, hadded, List.mem_append]
  constructor
  · rintro ⟨x, hx | hx, hjob, hack⟩
    · exact absurd hjob (hothers x hx)
    · exact ⟨x, hx, hjob, hack⟩
  · rintro ⟨x, hx, hjob, hack⟩
    exact ⟨x, Or.inr hx, hjob, hack⟩

theorem EndTells.frame {e e' : Engine P R} {job : Nat} {a : Assignment P} {ending : Ending R}
    (h : EndTells e job a ending) (hgrown : Grown e e') (hacked : e'.Acked job ↔ e.Acked job) :
    EndTells e' job a ending := by
  rcases ending with crash | error | receipt
  · trivial
  · intro hadmission hplain hretryable
    rw [hacked, hgrown.desk]
    exact h hadmission (hgrown.desk ▸ hplain) hretryable
  · cases receipt with
    | batch r => exact Reported.mono h hgrown
    | submission outcome => exact Reported.mono h hgrown
    | permit since => trivial
    | written rows => trivial
    | vacated => trivial

/-- What others do keeps what the stage of a job tells, and so do the turns of its own workers while
it waits for them. -/
theorem Tells.frame {e e' : Engine P R} {job : Nat} {a : Assignment P} {stage : Stage P R}
    (h : Tells e job a stage) {added : List (Entry P R)} (hdesk : e'.desk = e.desk)
    (hadded : e'.exchanges = added ++ e.exchanges)
    (hothers : stage.isJoining = false → ∀ x ∈ added, x.event.job ≠ job)
    (hstay : ∀ w ∈ e.workers, w.job = job →
      ∃ w' ∈ e'.workers, w'.job = job ∧ w'.position = w.position)
    (hold : ∀ w' ∈ e'.workers, w'.job = job → ∃ w ∈ e.workers, w.job = job ∧
      w.position = w'.position ∧ w.index = w'.index ∧ w.payload = w'.payload) :
    Tells e' job a stage := by
  have hgrown : Grown e e' :=
    ⟨hdesk, fun x hx => by rw [hadded]; exact List.mem_append_right _ hx⟩
  have hacked (hnone : stage.isJoining = false) := acked_of_added hadded (hothers hnone)
  cases stage with
  | arriving due => exact fun hack => h ((hacked rfl).mp hack)
  | calling run => exact ⟨h.1, fun hack => h.2 ((hacked rfl).mp hack)⟩
  | backingOff attempt deadline due => exact ⟨h.1, fun hack => h.2 ((hacked rfl).mp hack)⟩
  | joining attempts run => exact Booked.frame h hgrown hstay hold
  | pausing attempts run due => exact Closed.mono h hgrown
  | writing result run =>
    cases result with
    | none => exact h
    | some r =>
      obtain ⟨hreported, hsome, htable⟩ := h
      exact ⟨hreported.mono hgrown, hsome, fun hplain => htable (hdesk ▸ hplain)⟩
  | finished time ending => exact EndTells.frame h hgrown (hacked rfl)
  | queued limit => trivial
  | holding since due => trivial
  | approaching => trivial
  | occupying due => trivial

theorem Tells.congr {e e' : Engine P R} {job : Nat} {a : Assignment P} {stage : Stage P R}
    (h : Tells e job a stage) (hdesk : e'.desk = e.desk) (hexchanges : e'.exchanges = e.exchanges)
    (hworkers : e'.workers = e.workers) : Tells e' job a stage := by
  have hadded : e'.exchanges = [] ++ e.exchanges := hexchanges
  refine h.frame hdesk hadded (by simp) ?_ ?_
  · intro w hw hjob
    exact ⟨w, hworkers ▸ hw, hjob, rfl⟩
  · intro w hw hjob
    exact ⟨w, hworkers ▸ hw, hjob, rfl, rfl, rfl⟩

theorem Tells.paper {e e' : Engine P R} {job : Nat} {a : Assignment P} {stage : Stage P R}
    (h : Tells e job a stage) (hfloor : SameFloor e e') : Tells e' job a stage :=
  h.congr hfloor.desk hfloor.exchanges hfloor.workers

theorem SameFloor.not_acked {e e' : Engine P R} {job : Nat} (hfloor : SameFloor e e')
    (h : ¬ e.Acked job) : ¬ e'.Acked job := by
  have hadded : e'.exchanges = [] ++ e.exchanges := hfloor.exchanges
  intro hack
  exact h ((acked_of_added hadded (by simp)).mp hack)

end Engine

end OrderAdmission
