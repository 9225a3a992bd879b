import OrderAdmission.Proofs.Admission
import OrderAdmission.Proofs.Tallies

/-!
# Checks behind the review

A batch is checked more than once on its way. The review looks at its orders, the executor at the indices
of its tasks, the writer at the orders that its updates name and at the row counts that the store answers.
Between the review and the last of them the orders are numbered, sent in one of several ways, and looked up
again by the places of their outcomes.

On the table of an engine **only the review ever refuses** (`only_review_refuses`). The tasks are numbered
by position, so that their indices are in order; a result has one outcome for each order, so that every
lookup finds one; the orders of a reviewed batch are different, and so are those that the updates name; and
the table answers each update with zero or one. An error that an admission ends with is therefore about the
world outside, or it is the verdict of the review, and then nobody has been asked.
-/
namespace OrderAdmission

variable {P R : Type}

/-- Whether an error is about the world outside. The others are the refusals of the gate's own checks, and
what only a holder of a permit of its own is told. -/
def GateError.isOutward : GateError → Bool
  | .permitTimeout _ | .rowCount _ _ | .invalid _ | .internal _ => false
  | _ => true

/-! ### The answers of the table -/

namespace Table

/-- The table answers an update with zero or one, unless it would have to raise the largest version. -/
theorem stage_answers (t staged : Table) (u : StatusUpdate) :
    (∃ staged' n, t.stage staged u = (staged', .ok n) ∧ n ≤ 1) ∨
      (∃ staged', t.stage staged u = (staged', .error .overflow)) ∧
        maxSigned ≤ u.expectedVersion := by
  unfold stage
  split
  · split
    · rename_i hversion
      split
      · exact .inl ⟨_, 1, rfl, le_rfl⟩
      · rename_i hlargest
        exact .inr ⟨⟨_, rfl⟩, by omega⟩
    · exact .inl ⟨_, 0, rfl, Nat.zero_le 1⟩
  · exact .inl ⟨_, 0, rfl, Nat.zero_le 1⟩

/-- The table answers a statement with a count for each update, each of them zero or one, unless it would
have to raise the largest version. -/
theorem stageAll_answers (t staged : Table) (updates : List StatusUpdate) :
    (∃ staged' counts, t.stageAll staged updates = (staged', .ok counts) ∧
      counts.length = updates.length ∧ ∀ n ∈ counts, n ≤ 1) ∨
      (∃ staged', t.stageAll staged updates = (staged', .error .overflow)) ∧
        ∃ u ∈ updates, maxSigned ≤ u.expectedVersion := by
  induction updates generalizing staged with
  | nil => exact .inl ⟨staged, [], rfl, rfl, by simp⟩
  | cons u rest ih =>
    rcases t.stage_answers staged u with ⟨staged₁, n, hfirst, hn⟩ | ⟨⟨staged₁, hfirst⟩, hlargest⟩
    · rcases ih staged₁ with ⟨staged', ns, hrest, hlength, hns⟩ | ⟨⟨staged', hrest⟩, v, hv, hlargest⟩
      · refine .inl ⟨staged', n :: ns, by simp only [stageAll, hfirst, hrest], ?_, ?_⟩
        · rw [List.length_cons, hlength, List.length_cons]
        · exact List.forall_mem_cons.mpr ⟨hn, hns⟩
      · exact .inr ⟨⟨staged', by simp only [stageAll, hfirst, hrest]⟩, v,
          List.mem_cons_of_mem u hv, hlargest⟩
    · exact .inr ⟨⟨staged₁, by simp only [stageAll, hfirst]⟩, u, List.mem_cons_self, hlargest⟩

end Table

theorem checkCounts_outward {updates : List StatusUpdate} {counts : List Nat}
    (hcounts : ∀ n ∈ counts, n ≤ 1) {error : GateError}
    (h : checkCounts updates counts = .error error) : error.isOutward = true := by
  fun_induction checkCounts updates counts with
  | case1 u us ns ih => exact ih (List.forall_mem_cons.mp hcounts).2 h
  | case2 u us ns hone =>
    cases h
    rfl
  | case3 u us n ns hone hzero =>
    have hn := hcounts n List.mem_cons_self
    omega
  | case4 updates counts hne => cases h

theorem checkStatement_outward {updates : List StatusUpdate} {counts : List Nat}
    (hlength : counts.length = updates.length) (hcounts : ∀ n ∈ counts, n ≤ 1) {error : GateError}
    (h : checkStatement updates counts = .error error) : error.isOutward = true := by
  rw [checkStatement, if_pos hlength] at h
  exact checkCounts_outward hcounts h

/-! ### The updates of a result -/

theorem BatchResult.nodup_successes (r : BatchResult R) : (r.successes.map (·.1)).Nodup := by
  have hplaces : r.outcomes.zipIdx.Pairwise fun x y => x.2 ≠ y.2 := by
    rw [← List.pairwise_map, List.zipIdx_map_snd]
    exact List.nodup_range'
  refine List.pairwise_map.mpr (hplaces.filterMap _ ?_)
  rintro ⟨o, i⟩ ⟨o', k⟩ hne x hx y hy
  obtain ⟨v, -, rfl⟩ := Option.map_eq_some_iff.mp hx
  obtain ⟨v', -, rfl⟩ := Option.map_eq_some_iff.mp hy
  exact hne

namespace Engine

/-- Where every place has an order, every lookup finds one, and the updates name these orders. -/
theorem updatesFor_ok (e : Engine P R) (orders : List P) {taken : List (Nat × R)}
    (hrange : ∀ x ∈ taken, x.1 < orders.length) :
    ∃ updates cache, e.updatesFor orders taken = .ok (updates, cache) ∧
      updates.map (·.orderId) =
        taken.filterMap fun x => orders[x.1]?.map fun o => (e.desk.place o x.2).orderId := by
  induction taken generalizing e with
  | nil => exact ⟨[], e.cache, rfl, rfl⟩
  | cons first rest ih =>
    obtain ⟨i, answer⟩ := first
    obtain ⟨hfirst, hrest⟩ := List.forall_mem_cons.mp hrange
    have horder : orders[i]? = some orders[i] := List.getElem?_eq_getElem hfirst
    obtain ⟨updates, cache, hupdates, hids⟩ := ih (e.setCache (e.updateFor orders[i] answer).2) hrest
    refine ⟨(e.updateFor orders[i] answer).1 :: updates, cache, ?_, ?_⟩
    · simp only [setCache] at hupdates
      simp only [updatesFor, horder, hupdates]
    · rw [List.map_cons, hids, List.filterMap_cons, horder]
      rfl

/-- The updates that follow from a result of a reviewed batch: every lookup finds its order, and none
is named twice. -/
theorem updatesFor_reviewed {c : AppConfig} {service : Service} {store : StatusStore}
    {e : Engine Order Acknowledgement} (hdesk : e.desk = .forOrders c service store)
    {orders : List Order} (hreviewed : Order.Reviewed orders) {r : BatchResult Acknowledgement}
    (hlength : r.outcomes.length = orders.length) :
    ∃ updates cache, e.updatesFor orders r.successes = .ok (updates, cache) ∧
      StatusUpdate.firstRepeated updates [] = none := by
  have hrange : ∀ x ∈ r.successes, x.1 < orders.length := by
    rintro ⟨i, ack⟩ hx
    exact hlength ▸ (List.getElem?_eq_some_iff.mp (mem_successes.mp hx)).1
  obtain ⟨updates, cache, hupdates, hids⟩ := e.updatesFor_ok orders hrange
  refine ⟨updates, cache, hupdates, firstRepeated_eq_none ?_ fun _ _ hnone => nomatch hnone⟩
  have hplaces : updates.map (·.orderId) =
      (r.successes.map (·.1)).filterMap fun i => orders[i]?.map (·.id) := by
    rw [hids, List.filterMap_map, hdesk]
    rfl
  rw [hplaces]
  refine r.nodup_successes.filterMap ?_
  -- Two places with the same order are one place.
  intro i k id hi hk
  obtain ⟨o, ho, hid⟩ := Option.map_eq_some_iff.mp hi
  obtain ⟨o', ho', hid'⟩ := Option.map_eq_some_iff.mp hk
  exact place_of_nodup hreviewed.distinct ho ho' (hid.trans hid'.symm)

end Engine

/-! ### Turns of a status write -/

/-- A turn of a status write on the table of an engine ends it with an error about the world outside, if
with any. -/
def WriteTurn.IsOutward : WriteTurn → Prop
  | .goesOn run => run.OnTable
  | .ends (.ok (.error error)) => error.isOutward = true
  | _ => True

namespace Engine

section Write

variable {e : Engine P R} {job latency : Nat} {w : WriteRun}

theorem openWrite_outward (hstore : e.desk.store = .table latency) {updates : List StatusUpdate}
    (hdistinct : StatusUpdate.firstRepeated updates [] = none) :
    (e.openWrite job updates).2.IsOutward := by
  simp only [openWrite, hdistinct, hstore]
  split
  · trivial
  · exact .inl rfl

theorem nextStatement_outward (hstore : e.desk.store = .table latency) :
    (e.nextStatement job w).2.IsOutward := by
  cases hremaining : w.remaining with
  | nil =>
    rw [nextStatement_commit e job w latency hremaining hstore, endWrite_turn]
    trivial
  | cons updates rest =>
    simp only [nextStatement, hremaining, hstore]
    exact .inr ⟨_, rfl⟩

theorem afterStatement_outward (hstore : e.desk.store = .table latency) {counts : List Nat}
    (hlength : counts.length = (w.remaining.headD []).length) (hcounts : ∀ n ∈ counts, n ≤ 1) :
    (e.afterStatement job w counts).2.IsOutward := by
  cases hremaining : w.remaining with
  | nil =>
    simp only [afterStatement, hremaining]
    exact nextStatement_outward hstore
  | cons updates rest =>
    rw [hremaining] at hlength
    simp only [afterStatement, hremaining]
    cases hcheck : checkStatement updates counts with
    | error error =>
      have hstore' : (e.note (.stored job .rollback)).desk.store = .table latency := hstore
      simp only [rollBack, hstore', endWrite_turn]
      exact checkStatement_outward hlength hcounts hcheck
    | ok => exact nextStatement_outward hstore

theorem writeTurn_outward (hstore : e.desk.store = .table latency) (htable : w.OnTable) :
    (e.writeTurn job w).2.IsOutward := by
  have hcut : (e.cutWrite job).2.IsOutward := by
    rw [cutWrite, endWrite_turn]
    rfl
  rcases htable with hstep | ⟨due, hstep⟩
  · simp only [writeTurn, hstep]
    split
    · exact nextStatement_outward hstore
    · exact hcut
  · simp only [writeTurn, hstep]
    split
    · rcases e.ledger.table.stageAll_answers w.staged (w.remaining.headD []) with
        ⟨staged, counts, hstaged, hlength, hcounts⟩ | ⟨⟨staged, hstaged⟩, -⟩
      · rw [hstaged]
        exact afterStatement_outward hstore hlength hcounts
      · rw [hstaged, endWrite_turn]
        trivial
    · exact hcut

end Write

/-! ### Turns of an admission -/

/-- An admission of these orders ends with an error about the world outside or with the verdict of the
review, if it ends with an error. -/
def EndsOutward (orders : List Order) : Ending Acknowledgement → Prop
  | .ok (.error error) => error.isOutward = true ∨ Order.checkBatch orders = .error error
  | _ => True

/-- An admission of these orders that is under way has passed the review. -/
def BehindReview (orders : List Order) : Stage Order Acknowledgement → Prop
  | .arriving _ => True
  | .writing _ run => Order.Reviewed orders ∧ run.OnTable
  | .finished _ ending => EndsOutward orders ending
  | _ => Order.Reviewed orders

section Turns

variable {c : AppConfig} {service : Service} {latency job attempts : Nat}
  {e : Engine Order Acknowledgement} {orders : List Order}

theorem conclude_behind {a : Assignment Order} {ending : Ending Acknowledgement}
    (h : EndsOutward orders ending) : BehindReview orders (e.conclude a ending).2 := by
  rw [conclude_eq]
  exact h

theorem followWrite_behind (hreviewed : Order.Reviewed orders) {a : Assignment Order}
    {result : Option (BatchResult Acknowledgement)}
    {turn : Engine Order Acknowledgement × WriteTurn} (hturn : turn.2.IsOutward) :
    BehindReview orders (followWrite a result turn).2 := by
  rcases turn with ⟨e, run | crash | error | rows⟩
  · exact ⟨hreviewed, hturn⟩
  · exact conclude_behind trivial
  · exact conclude_behind (.inl hturn)
  · cases result <;> exact conclude_behind trivial

/-- With a result that has an outcome for each order, an admission goes on to write. -/
theorem answered_reviewed (job attempts : Nat)
    (hdesk : e.desk = .forOrders c service (.table latency))
    (hreviewed : Order.Reviewed orders) {r : BatchResult Acknowledgement}
    (hlength : r.outcomes.length = orders.length) :
    ∃ updates cache, e.updatesFor orders r.successes = .ok (updates, cache) ∧
      StatusUpdate.firstRepeated updates [] = none ∧
      e.answered job (.process orders) attempts r =
        followWrite (.process orders) (some r) ((e.setCache cache).openWrite job updates) := by
  obtain ⟨updates, cache, hupdates, hdistinct⟩ := updatesFor_reviewed hdesk hreviewed hlength
  have horders : (Assignment.process orders).orders = orders := rfl
  refine ⟨updates, cache, hupdates, hdistinct, ?_⟩
  simp only [answered]
  rw [placeOrders_eq, horders, hupdates]

theorem answered_behind (hdesk : e.desk = .forOrders c service (.table latency))
    (hreviewed : Order.Reviewed orders) {r : BatchResult Acknowledgement}
    (hlength : r.outcomes.length = orders.length) :
    BehindReview orders (e.answered job (.process orders) attempts r).2 := by
  obtain ⟨updates, cache, -, hdistinct, hanswered⟩ :=
    answered_reviewed job attempts hdesk hreviewed hlength
  have hstore : (e.setCache cache).desk.store = .table latency := by
    rw [setCache, hdesk]
    rfl
  rw [hanswered]
  exact followWrite_behind hreviewed (openWrite_outward hstore hdistinct)

theorem admitBulk_outward {b b' : Breaker} {wall : Int} {error : GateError}
    (h : b.admitBulk wall = .ok (.error error, b')) : error.isOutward = true := by
  cases Breaker.admitBulk_refusal h with
  | circuit _ _ _ => rfl
  | pool _ _ => rfl

theorem sendSingly_behind (hdesk : e.desk = .forOrders c service (.table latency))
    (hreviewed : Order.Reviewed orders) :
    BehindReview orders (e.sendSingly job (.process orders) attempts).2 := by
  have horders : (Assignment.process orders).orders = orders := rfl
  rw [sendSingly, startBatch_eq, horders, checkTasks_ofPayloads]
  split
  · rename_i hempty
    have hnone : orders = [] := by
      by_contra hsome
      exact BatchTask.ofPayloads_ne_nil hsome (List.isEmpty_iff.mp hempty)
    exact answered_behind hdesk hreviewed (by rw [hnone]; rfl)
  · simp only
    split
    · exact conclude_behind trivial
    · rename_i hrefused
      exact conclude_behind (.inl (admitBulk_outward hrefused))
    · exact hreviewed

theorem callBulk_behind (hreviewed : Order.Reviewed orders) (attempt deadline : Nat) :
    BehindReview orders (e.callBulk job (.process orders) attempt deadline).2 := by
  rw [callBulk_eq]
  split
  · exact conclude_behind trivial
  · exact hreviewed

theorem fallBack_behind (hdesk : e.desk = .forOrders c service (.table latency))
    (hreviewed : Order.Reviewed orders) (failure : DownstreamFailure) :
    BehindReview orders (e.fallBack job (.process orders) attempts failure).2 := by
  simp only [fallBack]
  split
  · exact conclude_behind (.inl rfl)
  · exact sendSingly_behind hdesk hreviewed

theorem bulkFailed_behind (hdesk : e.desk = .forOrders c service (.table latency))
    (hreviewed : Order.Reviewed orders) (run : BulkRun Acknowledgement)
    (failure : DownstreamFailure) :
    BehindReview orders (e.bulkFailed job (.process orders) run failure).2 := by
  have htold : (e.report job .failure).desk = .forOrders c service (.table latency) := hdesk
  have hset (breaker : Breaker) : ((e.report job .failure).setBreaker breaker).desk =
      .forOrders c service (.table latency) := hdesk
  rw [bulkFailed_eq]
  simp only
  split
  · exact conclude_behind (.inl rfl)
  · split
    · exact fallBack_behind htold hreviewed failure
    · split
      · exact conclude_behind trivial
      · exact fallBack_behind (hset _) hreviewed failure
      · split
        · exact fallBack_behind (hset _) hreviewed failure
        · exact hreviewed

theorem bulkTurn_behind (hdesk : e.desk = .forOrders c service (.table latency))
    (hreviewed : Order.Reviewed orders) (run : BulkRun Acknowledgement) :
    BehindReview orders (e.bulkTurn job (.process orders) run).2 := by
  have hheard (event : Event Order Acknowledgement) :
      (e.note event).desk = .forOrders c service (.table latency) := hdesk
  have hreported (event : Event Order Acknowledgement) :
      ((e.note event).report job .success).desk = .forOrders c service (.table latency) := hdesk
  simp only [bulkTurn, bulkAnswered]
  split
  · split
    · rename_i hcount
      refine answered_behind (hreported _) hreviewed ?_
      rw [List.length_map]
      exact hcount
    · exact bulkFailed_behind (hheard _) hreviewed run _
  · exact bulkFailed_behind (hheard _) hreviewed run _
  · exact conclude_behind trivial
  · exact bulkFailed_behind (hheard _) hreviewed run _

theorem startSubmission_behind (hdesk : e.desk = .forOrders c service (.table latency))
    (hreviewed : Order.Reviewed orders) :
    BehindReview orders (e.startSubmission job (.process orders)).2 := by
  simp only [startSubmission]
  split
  · exact sendSingly_behind hdesk hreviewed
  · split
    · exact conclude_behind trivial
    · split
      · exact callBulk_behind hreviewed _ _
      · exact conclude_behind trivial

theorem startAdmission_behind (hdesk : e.desk = .forOrders c service (.table latency)) :
    BehindReview orders (e.startAdmission job (.process orders)).2 := by
  have hreview : e.desk.review = Order.checkBatch := by
    rw [hdesk]
    rfl
  rw [startAdmission_eq, hreview]
  split
  · trivial
  · split
    · rename_i hrefused
      exact .inr hrefused
    · rename_i hchecked
      have hreviewed := Order.checkBatch_eq_ok_iff.mp hchecked
      split
      · exact conclude_behind trivial
      · rename_i hrefused
        exact conclude_behind (.inl (admitBulk_outward hrefused))
      · simp only [checkOverload]
        split
        · exact conclude_behind (.inl rfl)
        · exact startSubmission_behind hdesk hreviewed

end Turns

/-! ### Results -/

/-- The job comes to a result in its turn, which this engine then goes on with: its bulk call has come
back with an item for each order, or its last chunk is closed. -/
inductive ComesTo (e : Engine P R) (j : Job P R) : Engine P R → BatchResult R → Prop where
  | bulk {run : BulkRun R} {items : List (Except DownstreamFailure R)}
      (answered : BulkAnswered e j run items) (right : items.length = j.assignment.orders.length) :
      ComesTo e j ((e.heard j).report j.number .success) { outcomes := items.map .ofItem }
  | chunks {attempts : Nat} {run : BatchRun P R} (source : j.stage = .joining attempts run)
      (none : (e.workersOf j.number).find? (·.hasEnded) = none) (last : run.remaining = []) :
      ComesTo e j (e.settled j.number run).1 { outcomes := (e.settled j.number run).2 }

namespace ComesTo

variable {e e₁ : Engine P R} {j : Job P R} {r : BatchResult R}

theorem desk (h : ComesTo e j e₁ r) : e₁.desk = e.desk := by
  cases h with
  | bulk answered right => exact (heard_sameJobs e j).desk
  | chunks source none last => exact (settled_floor e j.number _).desk

theorem jobTurn_eq (h : ComesTo e j e₁ r) :
    ∃ attempts, e.jobTurn j = e₁.answered j.number j.assignment attempts r := by
  cases h with
  | @bulk run items answered right =>
    refine ⟨run.attempt, ?_⟩
    simp only [jobTurn, heard, answered.1, heardBulk, bulkTurn, answered.2, right, ↓reduceIte]
    rfl
  | @chunks attempts run source none last =>
    refine ⟨attempts, ?_⟩
    simp only [jobTurn, source]
    rw [joinTurn_eq, none]
    simp only [endChunk_eq, last, List.isEmpty_nil, ↓reduceIte]
    rfl

theorem length (h : ComesTo e j e₁ r) (htells : Tells e j.number j.assignment j.stage)
    (hsubmission : j.assignment.isSubmission = true) :
    r.outcomes.length = j.assignment.orders.length := by
  cases h with
  | bulk answered right => rw [List.length_map, right]
  | @chunks attempts run source none last =>
    rw [source] at htells
    have hlength := (settled_closed htells).noted.length
    rwa [Assignment.tasks_of_isSubmission hsubmission, BatchTask.length_ofPayloads] at hlength

end ComesTo

section Moves

variable {c : AppConfig} {service : Service} {latency : Nat} {e e' : Engine Order Acknowledgement}
  {j : Job Order Acknowledgement} {orders : List Order}

theorem ComesTo.reviewed {e₁ : Engine Order Acknowledgement} {r : BatchResult Acknowledgement}
    (h : ComesTo e j e₁ r) (hbehind : BehindReview orders j.stage) : Order.Reviewed orders := by
  cases h with
  | bulk answered right =>
    rw [answered.1] at hbehind
    exact hbehind
  | chunks source none last =>
    rw [source] at hbehind
    exact hbehind

theorem jobTurn_behind (hreached : e.Reached) (hj : j ∈ e.jobs)
    (hdesk : e.desk = .forOrders c service (.table latency))
    (hassignment : j.assignment = .process orders) (hbehind : BehindReview orders j.stage) :
    BehindReview orders (e.jobTurn j).2 := by
  have hstore : e.desk.store = .table latency := by rw [hdesk]; rfl
  have hsound := hreached.wellFormed.sound j hj
  have hresult {e₁ : Engine Order Acknowledgement} {r : BatchResult Acknowledgement}
      (h : ComesTo e j e₁ r) : BehindReview orders (e.jobTurn j).2 := by
    obtain ⟨attempts, hturn⟩ := h.jobTurn_eq
    have hlength := h.length (hreached.truthful j hj) (by rw [hassignment]; rfl)
    rw [hassignment] at hlength
    rw [hturn, hassignment]
    exact answered_behind (h.desk.trans hdesk) (h.reviewed hbehind) hlength
  cases hstage : j.stage with
  | arriving due =>
    simp only [jobTurn, hstage, hassignment, startJob]
    exact startAdmission_behind hdesk
  | queued limit =>
    rw [hstage, hassignment] at hsound
    obtain ⟨stay, hhold⟩ := hsound
    cases hhold
  | holding since due =>
    rw [hstage, hassignment] at hsound
    obtain ⟨stay, hhold⟩ := hsound
    cases hhold
  | approaching | occupying due =>
    rw [hstage, hassignment] at hsound
    cases hsound
  | calling run =>
    rw [hstage] at hbehind
    simp only [jobTurn, hstage, hassignment]
    exact bulkTurn_behind hdesk hbehind run
  | backingOff attempt deadline due =>
    rw [hstage] at hbehind
    simp only [jobTurn, hstage, hassignment]
    exact callBulk_behind hbehind _ _
  | joining attempts run =>
    cases hfound : (e.workersOf j.number).find? (·.hasEnded) with
    | some w =>
      rw [hstage] at hbehind
      simp only [jobTurn, hstage]
      rw [joinTurn_eq, hfound]
      exact hbehind
    | none =>
      by_cases hlast : run.remaining = []
      · exact hresult (.chunks hstage hfound hlast)
      · have hempty : run.remaining.isEmpty = false := by simpa using hlast
        rw [hstage] at hbehind
        simp only [jobTurn, hstage]
        rw [joinTurn_eq, hfound]
        simp only [endChunk_eq, hempty, Bool.false_eq_true, ↓reduceIte]
        split
        · exact hbehind
        · exact hbehind
  | pausing attempts run due =>
    rw [hstage] at hbehind
    simp only [jobTurn, hstage]
    exact hbehind
  | writing result run =>
    rw [hstage] at hbehind
    simp only [jobTurn, hstage, hassignment]
    exact followWrite_behind hbehind.1 (writeTurn_outward hstore hbehind.2)
  | finished time ending =>
    rw [hstage] at hbehind
    simp only [jobTurn, hstage]
    exact hbehind

/-- What every course has to do with the gate's own checks: the gate is as it was set up, and every
admission that is under way has passed the review. -/
structure Checked (c : AppConfig) (service : Service) (latency : Nat)
    (e : Engine Order Acknowledgement) : Prop where
  reached : e.Reached
  desk : e.desk = .forOrders c service (.table latency)
  admissions : ∀ j ∈ e.jobs, ∀ orders, j.assignment = .process orders → BehindReview orders j.stage

theorem Move.checked (hmove : Move e e') (h : Checked c service latency e) :
    Checked c service latency e' := by
  have hwf := h.reached.wellFormed
  refine ⟨hmove.reached h.reached, (hmove.desk hwf).trans h.desk, ?_⟩
  intro k hk orders hassignment
  rcases hmove.mem_jobs hwf hk with hold | ⟨j, hj, hready, rfl⟩
  · exact h.admissions k hold orders hassignment
  · exact jobTurn_behind h.reached hj h.desk hassignment (h.admissions j hj orders hassignment)

theorem AtRest.checked (hrest : e.AtRest) (hdesk : e.desk = .forOrders c service (.table latency))
    (assignments : List (Nat × Assignment Order)) :
    Checked c service latency (e.addJobs assignments).unturned := by
  refine ⟨hrest.reached assignments, ?_, fun j hj orders _ => ?_⟩
  · rw [addJobs_eq]
    exact hdesk
  · obtain ⟨due, hstage⟩ := hrest.arriving hj
    rw [hstage]
    trivial

end Moves

/-- **Only the review refuses.** Let an admission be one of several assignments, whatever the settings,
the stored orders and the service, on the table of an engine. At every instant of every course, an error
that the admission has ended with is about the world outside or is the verdict of the review; where the
review refuses, the first turn ends the admission and leaves everything else as it is, the breaker
included; and whenever the admission comes to a result, every lookup of an order finds one, no update
repeats another, and it goes on to write. What is performed ends accordingly. The indices of the tasks are
always in order, and the table answers every statement with zero or one for each update, unless it would
have to raise the largest version. -/
theorem only_review_refuses {c : AppConfig} {service : Service} {latency : Nat}
    {e : Engine Order Acknowledgement} (hrest : e.AtRest)
    (hdesk : e.desk = .forOrders c service (.table latency))
    {assignments : List (Nat × Assignment Order)} {i wait : Nat} {orders : List Order}
    (hassigned : assignments[i]? = some (wait, .process orders)) :
    (∀ e', Course (e.addJobs assignments).unturned e' → ∃ j ∈ e'.jobs,
      j.number = e.nextNumber + i ∧ j.assignment = .process orders ∧
      (∀ time error, j.ending? = some (time, .ok (.error error)) →
        error.isOutward = true ∨ Order.checkBatch orders = .error error) ∧
      (∀ due error, j.stage = .arriving due → Order.checkBatch orders = .error error →
        e'.jobTurn j = (e', .finished e'.now (.ok (.error error)))) ∧
      ∀ e₁ r, ComesTo e' j e₁ r → r.outcomes.length = orders.length ∧
        ∃ updates cache, e₁.updatesFor orders r.successes = .ok (updates, cache) ∧
          StatusUpdate.firstRepeated updates [] = none ∧
          e'.jobTurn j = followWrite (.process orders) (some r)
            ((e₁.setCache cache).openWrite j.number updates)) ∧
    (∃ time ending, (e.perform assignments).2[i]? = some (some (time, ending)) ∧
      ∀ error, ending = .ok (.error error) →
        error.isOutward = true ∨ Order.checkBatch orders = .error error) ∧
    checkTasks (BatchTask.ofPayloads orders) = .ok () ∧
    ∀ (t staged : Table) updates,
      (∃ staged' counts, t.stageAll staged updates = (staged', .ok counts) ∧
        counts.length = updates.length ∧ ∀ n ∈ counts, n ≤ 1) ∨
      (∃ staged', t.stageAll staged updates = (staged', .error .overflow)) ∧
        ∃ u ∈ updates, maxSigned ≤ u.expectedVersion := by
  have hends {e' : Engine Order Acknowledgement} {j : Job Order Acknowledgement}
      (hchecked : Checked c service latency e') (hj : j ∈ e'.jobs)
      (hassignment : j.assignment = .process orders) {time : Nat} {error : GateError}
      (hending : j.ending? = some (time, .ok (.error error))) :
      error.isOutward = true ∨ Order.checkBatch orders = .error error := by
    have hbehind := hchecked.admissions j hj orders hassignment
    rwa [ending?_eq_some hending] at hbehind
  refine ⟨fun e' hcourse => ?_, ?_, checkTasks_ofPayloads orders, Table.stageAll_answers⟩
  · have hchecked := hcourse.keeps Move.checked (hrest.checked hdesk assignments)
    obtain ⟨j, hat, hnumber, hassignment⟩ := hrest.exists_job hcourse hassigned
    have hj := List.mem_of_getElem? hat
    refine ⟨j, hj, hnumber, hassignment, fun time error => hends hchecked hj hassignment,
      fun due error hstage hrefused => ?_, fun e₁ r hresult => ?_⟩
    · have hsome : orders ≠ [] := by
        rintro rfl
        cases hrefused
      have hreview : e'.desk.review orders = .error error := by
        rw [hchecked.desk]
        exact hrefused
      simp only [jobTurn, hstage, hassignment, startJob]
      exact startAdmission_rejected (a := .process orders) hsome hreview
    · have hlength := hresult.length (hchecked.reached.truthful j hj) (by rw [hassignment]; rfl)
      obtain ⟨attempts, hturn⟩ := hresult.jobTurn_eq
      rw [hassignment] at hlength hturn
      refine ⟨hlength, ?_⟩
      rw [hturn]
      exact answered_reviewed _ _ (hresult.desk.trans hchecked.desk)
        (hresult.reviewed (hchecked.admissions j hj orders hassignment)) hlength
  · obtain ⟨done, hcourse, hsettled, hwf, -, hendings⟩ := perform_course hrest assignments
    have hchecked := hcourse.keeps Move.checked (hrest.checked hdesk assignments)
    obtain ⟨j, hat, -, hassignment⟩ := hrest.exists_job hcourse hassigned
    have hj := List.mem_of_getElem? hat
    obtain ⟨time, ending, hstage⟩ := hsettled.finished hwf hj (by rw [hassignment]; rfl)
    have hending : j.ending? = some (time, ending) := by rw [Job.ending?, hstage]
    refine ⟨time, ending, ?_, ?_⟩
    · rw [hendings, List.getElem?_map, hat, Option.map_some, hending]
    · rintro error rfl
      exact hends hchecked hj hassignment hending

def errorOf? : Ending R → Option GateError
  | .ok (.error error) => some error
  | _ => none

theorem eq_error_of_errorOf? {ending : Ending R} {error : GateError}
    (h : errorOf? ending = some error) : ending = .ok (.error error) := by
  rcases ending with crash | error' | receipt
  · cases h
  · cases h
    rfl
  · cases h

/-- Two batches at once. The first passes the review, is taken by the service, and fails where its second
order meets a row that has another version. The second batch has an order twice, which is for the review
to say. -/
theorem changed_row_beside_repeated_order :
    let first := Order.limit 1 0 "C-1" "ACME" .buy (.ofNat 1) (.ofNat 10)
    let second := Order.limit 2 7 "C-2" "ACME" .buy (.ofNat 1) (.ofNat 10)
    let service : Service :=
      { bulk := fun _ orders => .answers 1 (.ok
          (orders.map fun _ => .ok { reference := "X-1", status := "Filled" }))
        single := fun _ _ => .hangs }
    let e := begun (.forOrders {} service (.table 2)) {} {} none (Table.ofIds [1, 2]) 0
    let assignments := [(0, .process [first, second]), (0, .process [first, first])]
    e.AtRest ∧ e.desk = .forOrders {} service (.table 2) ∧
      assignments[0]? = some (0, .process [first, second]) ∧
      (∃ time error, (e.perform assignments).2[0]? = some (some (time, .ok (.error error))) ∧
        error = .versionConflict 2 7 ∧ error.isOutward = true) ∧
      assignments[1]? = some (0, .process [first, first]) ∧
      ∃ time error, (e.perform assignments).2[1]? = some (some (time, .ok (.error error))) ∧
        error = .invalid (.repeatedOrder 1) ∧ Order.checkBatch [first, first] = .error error := by
  intro first second service e assignments
  have hrest : e.AtRest := begun_atRest _ _ _ _ _ _
  have hdesk : e.desk = .forOrders {} service (.table 2) := rfl
  have hfirst : assignments[0]? = some (0, .process [first, second]) := rfl
  have hsecond : assignments[1]? = some (0, .process [first, first]) := rfl
  obtain ⟨time, ending, hending, houtward⟩ := (only_review_refuses hrest hdesk hfirst).2.1
  obtain ⟨time', ending', hending', houtward'⟩ := (only_review_refuses hrest hdesk hsecond).2.1
  have herrors : (e.perform assignments).2.map (·.bind fun x => errorOf? x.2) =
      [some (.versionConflict 2 7), some (.invalid (.repeatedOrder 1))] := by decide +kernel
  have herror : errorOf? ending = some (.versionConflict 2 7) := by
    have hplace := congrArg (·[0]?) herrors
    simpa [hending] using hplace
  have herror' : errorOf? ending' = some (.invalid (.repeatedOrder 1)) := by
    have hplace := congrArg (·[1]?) herrors
    simpa [hending'] using hplace
  obtain rfl := eq_error_of_errorOf? herror
  obtain rfl := eq_error_of_errorOf? herror'
  refine ⟨hrest, hdesk, hfirst, ⟨time, _, hending, rfl, ?_⟩, hsecond, time', _, hending', rfl, ?_⟩
  · have hpasses : Order.checkBatch [first, second] = .ok () := by decide +kernel
    refine (houtward _ rfl).resolve_right fun hrefused => ?_
    rw [hpasses] at hrefused
    cases hrefused
  · exact (houtward' _ rfl).resolve_left Bool.false_ne_true

end Engine

end OrderAdmission
