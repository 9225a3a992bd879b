import OrderAdmission.Gate
import OrderAdmission.Proofs.Outcomes
import OrderAdmission.Proofs.Writing

/-!
# What an admission records

An admission checks a batch, sends it downstream in one of several ways, and writes the statuses of
the orders that were taken. Between a refusal by the service, a chunk that is cut off, and a
transaction that meets a changed row there are many ways for it to end.

All of them come to the same (`admission_records_acknowledged_orders`): **if there is a result, then
exactly the rows of the orders with a success in it have changed, by one version each; and if there
is none, the table is as it was**. This is so in whatever order everybody is served, as long as
nobody else writes statuses; whoever else keeps the table for a while only makes the admission fail.
-/
namespace OrderAdmission

variable {P R : Type}

def Stage.isWriting : Stage P R → Bool
  | .writing _ _ => true
  | _ => false

/-! ### The orders of a batch -/

theorem Order.nodup_of_checkFrom {orders : List Order} {seen : List Int}
    (h : Order.checkFrom orders seen = .ok ()) :
    (orders.map (·.id)).Nodup ∧ ∀ o ∈ orders, o.id ∉ seen := by
  induction orders generalizing seen with
  | nil => simp
  | cons o rest ih =>
    simp only [Order.checkFrom] at h
    split at h
    · cases h
    · split at h
      · cases h
      · rename_i hnew
        obtain ⟨hnodup, hseen⟩ := ih h
        refine ⟨List.nodup_cons.mpr ⟨?_, hnodup⟩, ?_⟩
        · intro hmem
          obtain ⟨o', ho', hsame⟩ := List.mem_map.mp hmem
          exact hseen o' ho' (hsame ▸ List.mem_cons_self)
        · intro o' ho'
          rcases List.mem_cons.mp ho' with rfl | ho'
          · exact hnew
          · exact fun hmem => hseen o' ho' (List.mem_cons_of_mem _ hmem)

theorem Order.nodup_of_checkBatch {orders : List Order} (h : Order.checkBatch orders = .ok ()) :
    (orders.map (·.id)).Nodup := by
  unfold Order.checkBatch at h
  split at h
  · rename_i hchecked
    exact (Order.nodup_of_checkFrom hchecked).1
  · cases h

theorem Desk.mem_updatesOf {desk : Desk P R} {orders : List P} {r : BatchResult R}
    {u : StatusUpdate} :
    u ∈ desk.updatesOf (.process orders) (some r) ↔ ∃ (i : Nat) (order : P) (answer : R),
      orders[i]? = some order ∧ r.outcomes[i]? = some (.success answer) ∧
        u = desk.updateOf order answer := by
  simp only [Desk.updatesOf, List.mem_filterMap, Prod.exists, Engine.mem_successes,
    Option.map_eq_some_iff]
  constructor
  · rintro ⟨i, answer, hanswer, order, horder, rfl⟩
    exact ⟨i, order, answer, horder, hanswer, rfl⟩
  · rintro ⟨i, order, answer, horder, hanswer, rfl⟩
    exact ⟨i, answer, hanswer, order, horder, rfl⟩

namespace Engine

/-! ### One writer among others -/

/-- Only the job with this number writes statuses, on this table. -/
structure Alone (t : Table) (number : Nat) (e : Engine P R) : Prop where
  ordinary : e.Ordinary
  own : ∀ j ∈ e.jobs, j.number = number → StageKept t e j.assignment j.stage
  others : ∀ j ∈ e.jobs, j.number ≠ number →
    j.assignment.isWriter = false ∧ j.stage.isWriting = false

theorem StageKept.of_not_isWriter {t : Table} {e : Engine P R} {a : Assignment P}
    {stage : Stage P R} (h : StageKept t e a stage) (hwriter : a.isWriter = false) :
    e.ledger.table = t ∧ stage.isWriting = false := by
  have hunwritten {result : Option (BatchResult R)} {t' : Table}
      (hwritten : Written t (e.desk.updatesOf a result) t') : t' = t := by
    rw [e.desk.updatesOf_of_not_isWriter hwriter] at hwritten
    exact Written.nil_iff.mp hwritten
  cases stage with
  | writing result run =>
    obtain ⟨_, _, hwrites, _⟩ := h
    rw [hwriter] at hwrites
    cases hwrites
  | finished time ending =>
    refine ⟨?_, rfl⟩
    rcases ending with crash | error | receipt
    · exact h
    · exact h
    · cases receipt with
      | batch r => exact hunwritten h.2
      | written rows => exact hunwritten h.2
      | _ => exact h.2
  | arriving due => exact ⟨h, rfl⟩
  | _ => exact ⟨h.1, rfl⟩

theorem jobTurn_of_not_isWriter {e : Engine P R} {j : Job P R} (hwf : e.WellFormed)
    (hj : j ∈ e.jobs) (hready : j.isReady e = true) (hordinary : e.Ordinary)
    (hwriter : j.assignment.isWriter = false) (hwriting : j.stage.isWriting = false) :
    (e.jobTurn j).1.Ordinary ∧ (e.jobTurn j).1.ledger.table = e.ledger.table ∧
      (e.jobTurn j).2.isWriting = false := by
  have hpasses : e.desk.Passes j.assignment := by
    intro hadmission
    rw [j.assignment.isWriter_of_isAdmission hadmission] at hwriter
    cases hwriter
  have hstage : StageKept e.ledger.table e j.assignment j.stage := by
    obtain ⟨number, a, stage, turn⟩ := j
    cases stage with
    | writing result run => cases hwriting
    | finished time ending => cases hready
    | arriving due => rfl
    | _ => exact ⟨rfl, hpasses⟩
  have hkept := jobTurn_kept (hwf.sound j hj) ⟨hordinary, hstage⟩
  exact ⟨hkept.ordinary, hkept.stage.of_not_isWriter hwriter⟩

theorem serveWorker_alone {t : Table} {number : Nat} {e : Engine P R} (w : Worker P R)
    (h : Alone t number e) : Alone t number (e.serveWorker w) := by
  have hhouse := workerTurn_house e w
  have hjobs : (e.serveWorker w).jobs = e.jobs := hhouse.jobs
  have hdesk : (e.serveWorker w).desk = e.desk := hhouse.desk
  have hcache : (e.serveWorker w).cache = e.cache := hhouse.cache
  have hledger : (e.serveWorker w).ledger = e.ledger := hhouse.ledger
  have hfaithful : (e.serveWorker w).cache.Faithful := hcache ▸ h.ordinary.faithful
  refine ⟨⟨hdesk ▸ h.ordinary.store, hfaithful⟩, ?_, ?_⟩
  · intro j hj hnumber
    have hkept : Kept t e j.assignment j.stage := ⟨h.ordinary, h.own j (hjobs ▸ hj) hnumber⟩
    exact (hkept.congr hdesk hfaithful (by rw [hledger])).stage
  · intro j hj hne
    exact h.others j (hjobs ▸ hj) hne

theorem serveJob_alone {t : Table} {number : Nat} {e : Engine P R} (hwf : e.WellFormed)
    {j : Job P R} (hj : j ∈ e.jobs) (hready : j.isReady e = true) (h : Alone t number e) :
    Alone t number (e.serveJob j) := by
  have hdesk : (e.jobTurn j).1.desk = e.desk :=
    (jobTurn_turn e j (hwf.sound j hj) hready).sameJobs.desk
  by_cases hnumber : j.number = number
  · -- The writer itself has its turn: all others are as they were.
    have hkept := jobTurn_kept (hwf.sound j hj) ⟨h.ordinary, h.own j hj hnumber⟩
    refine ⟨hkept.ordinary.elsewhere rfl rfl, ?_, ?_⟩
    · intro k hk hsame
      rcases mem_serveJob hwf hj hready hk with rfl | ⟨_, hne⟩
      · exact (hkept.congr rfl hkept.ordinary.faithful rfl).stage
      · exact absurd (hsame.trans hnumber.symm) hne
    · intro k hk hne
      rcases mem_serveJob hwf hj hready hk with rfl | ⟨hold, _⟩
      · exact absurd hnumber hne
      · exact h.others k hold hne
  · obtain ⟨hwriter, hwriting⟩ := h.others j hj hnumber
    obtain ⟨hordinary, htable, hstage⟩ :=
      jobTurn_of_not_isWriter hwf hj hready h.ordinary hwriter hwriting
    refine ⟨hordinary.elsewhere rfl rfl, ?_, ?_⟩
    · intro k hk hsame
      rcases mem_serveJob hwf hj hready hk with rfl | ⟨hold, _⟩
      · exact absurd hsame hnumber
      · have hkept : Kept t e k.assignment k.stage := ⟨h.ordinary, h.own k hold hsame⟩
        exact (hkept.congr hdesk hordinary.faithful htable).stage
    · intro k hk hne
      rcases mem_serveJob hwf hj hready hk with rfl | ⟨hold, _⟩
      · exact ⟨hwriter, hstage⟩
      · exact h.others k hold hne

theorem Move.alone {t : Table} {number : Nat} {e e' : Engine P R} (hmove : Move e e')
    (hwf : e.WellFormed) (h : Alone t number e) : Alone t number e' := by
  cases hmove with
  | worker member ready => exact serveWorker_alone _ h
  | job member ready => exact serveJob_alone hwf member ready h
  | tick quiet due =>
    refine ⟨h.ordinary.elsewhere rfl rfl, ?_, h.others⟩
    intro j hj hnumber
    have hkept : Kept t e j.assignment j.stage := ⟨h.ordinary, h.own j hj hnumber⟩
    exact (hkept.congr rfl h.ordinary.faithful rfl).stage

theorem Course.alone {t : Table} {number : Nat} {e e' : Engine P R} (hcourse : Course e e')
    (hwf : e.WellFormed) (h : Alone t number e) : Alone t number e' :=
  Course.carries Move.alone hcourse hwf h

theorem AtRest.alone {e : Engine P R} (hrest : e.AtRest) (hordinary : e.Ordinary)
    {assignments : List (Nat × Assignment P)} {i : Nat}
    (halone : ∀ k x, assignments[k]? = some x → k ≠ i → x.2.isWriter = false) :
    Alone e.ledger.table (e.nextNumber + i) (e.addJobs assignments).unturned := by
  have hjobs (j : Job P R) (hj : j ∈ (e.addJobs assignments).unturned.jobs) :
      ∃ due, j.stage = .arriving due := by
    obtain ⟨k, hk, rfl⟩ := List.mem_map.mp hj
    rw [addJobs_eq, hrest.jobs] at hk
    exact (mem_newJobs hk).2
  refine ⟨⟨?_, ?_⟩, ?_, ?_⟩
  · rw [addJobs_eq]
    exact hordinary.store
  · rw [addJobs_eq]
    exact hordinary.faithful
  · intro j hj _
    obtain ⟨due, hstage⟩ := hjobs j hj
    rw [hstage, addJobs_eq]
    rfl
  · intro j hj hne
    obtain ⟨due, hstage⟩ := hjobs j hj
    refine ⟨?_, by rw [hstage]; rfl⟩
    obtain ⟨k, wait, _, hassigned, hnumber⟩ := hrest.exists_assignment .refl hj
    exact halone k _ hassigned (by omega)

/-! ### The record of a batch -/

/-- The table, and the journal beside it, bear out the result of a batch: it has one outcome for each
order, which is what the service answered for it, and exactly the rows of the successes have changed.
Such a row had the version of its order; it has the next version now, the status as it was
acknowledged, and the reference of the service. -/
structure Recorded (t : Table) (e : Engine Order Acknowledgement) (job : Nat) (orders : List Order)
    (r : BatchResult Acknowledgement) : Prop where
  length : r.outcomes.length = orders.length
  closed : ∀ o ∈ r.outcomes, o ≠ .pending
  answered : ∀ (i : Nat) order outcome, orders[i]? = some order → r.outcomes[i]? = some outcome →
    Fate e job i order outcome ∨ e.InBulk job (.process orders) i outcome
  changed : ∀ (i : Nat) order outcome, orders[i]? = some order → r.outcomes[i]? = some outcome →
    (e.ledger.table.get? order.id ≠ t.get? order.id ↔ ∃ ack, outcome = .success ack)
  placed : ∀ (i : Nat) order ack, orders[i]? = some order →
    r.outcomes[i]? = some (.success ack) →
    ∃ row, t.get? order.id = some row ∧ row.version = order.version ∧
      e.ledger.table.get? order.id = some
        { status := (OrderStatus.ofSpelling? ack.status).getD .submitted
          version := order.version + 1
          extra := some (.obj [("exchange_order_id", .str ack.reference)]) }
  others : ∀ id, (∀ order ∈ orders, order.id ≠ id) → e.ledger.table.get? id = t.get? id

/-- What is to be found in the table when an admission has ended. -/
def TableFollows (t : Table) (e : Engine Order Acknowledgement) (job : Nat) (orders : List Order) :
    Ending Acknowledgement → Prop
  | .ok (.ok (.batch r)) => Recorded t e job orders r
  | .ok (.ok _) => False
  | _ => e.ledger.table = t

section Rows

variable {c : AppConfig} {service : Service} {store : StatusStore} {t : Table}
  {e : Engine Order Acknowledgement} {orders : List Order} {r : BatchResult Acknowledgement}

theorem updateOf_forOrders (hdesk : e.desk = .forOrders c service store) (order : Order)
    (ack : Acknowledgement) :
    e.desk.updateOf order ack =
      { orderId := order.id, expectedVersion := order.version
        status := (OrderStatus.ofSpelling? ack.status).getD .submitted
        extra := some (.obj [("exchange_order_id", .str ack.reference)]) } := by
  rw [hdesk]
  rfl

/-- The row of a success had the version of its order, and has been updated. -/
theorem row_of_success (hdesk : e.desk = .forOrders c service store)
    (hwritten : Written t (e.desk.updatesOf (.process orders) (some r)) e.ledger.table) {i : Nat}
    {order : Order} {ack : Acknowledgement} (horder : orders[i]? = some order)
    (houtcome : r.outcomes[i]? = some (.success ack)) :
    ∃ row, t.get? order.id = some row ∧ row.version = order.version ∧
      e.ledger.table.get? order.id = some
        { status := (OrderStatus.ofSpelling? ack.status).getD .submitted
          version := order.version + 1
          extra := some (.obj [("exchange_order_id", .str ack.reference)]) } := by
  obtain ⟨row, hrow, hversion, hnew⟩ :=
    hwritten.updated (Desk.mem_updatesOf.mpr ⟨i, order, ack, horder, houtcome, rfl⟩)
  rw [updateOf_forOrders hdesk] at hrow hversion hnew
  refine ⟨row, hrow, hversion, hnew.trans ?_⟩
  simp only [StoredRow.update, hversion]
  rfl

/-- A row that is not the row of a success is as it was. -/
theorem row_of_no_success (hdesk : e.desk = .forOrders c service store)
    (hwritten : Written t (e.desk.updatesOf (.process orders) (some r)) e.ledger.table) {id : Int}
    (hnone : ∀ (i : Nat) order ack, orders[i]? = some order →
      r.outcomes[i]? = some (.success ack) → order.id ≠ id) :
    e.ledger.table.get? id = t.get? id := by
  refine hwritten.others ?_
  intro u hu hid
  obtain ⟨i, order, ack, horder, houtcome, rfl⟩ := Desk.mem_updatesOf.mp hu
  rw [updateOf_forOrders hdesk] at hid
  exact hnone i order ack horder houtcome hid

theorem nodup_of_passes (hdesk : e.desk = .forOrders c service store)
    (hpasses : e.desk.Passes (.process orders)) : (orders.map (·.id)).Nodup := by
  rcases hpasses rfl with hnone | hreview
  · rw [show orders = [] from hnone]
    exact List.nodup_nil
  · rw [hdesk] at hreview
    exact Order.nodup_of_checkBatch hreview

theorem recorded {job : Nat} (hdesk : e.desk = .forOrders c service store)
    (hreported : Reported e job (.process orders) r)
    (hpasses : e.desk.Passes (.process orders))
    (hwritten : Written t (e.desk.updatesOf (.process orders) (some r)) e.ledger.table) :
    Recorded t e job orders r := by
  have hdistinct := nodup_of_passes hdesk hpasses
  refine ⟨?_, hreported.not_pending, ?_, ?_, ?_, ?_⟩
  · rw [hreported.length]
    exact BatchTask.length_ofPayloads orders
  · intro i order outcome horder houtcome
    have htask : (Assignment.process orders).tasks[i]? = some ⟨i, order⟩ := by
      rw [Assignment.tasks, getElem?_ofPayloads, horder]
      rfl
    obtain ⟨o, ho, hfate⟩ := hreported.fates i _ htask
    obtain rfl : outcome = o := Option.some.inj (houtcome.symm.trans ho)
    exact hfate
  · intro i order outcome horder houtcome
    constructor
    · intro hchanged
      by_contra hfailed
      refine hchanged (row_of_no_success hdesk hwritten ?_)
      -- No success is about the row of this order, since no other order has its id.
      intro k order' ack horder' hsuccess hid
      obtain rfl := place_of_nodup hdistinct horder' horder hid
      exact hfailed ⟨ack, Option.some.inj (houtcome.symm.trans hsuccess)⟩
    · rintro ⟨ack, rfl⟩ hsame
      obtain ⟨row, hrow, hversion, hnew⟩ := row_of_success hdesk hwritten horder houtcome
      rw [hnew, hrow, Option.some.injEq] at hsame
      have hraised : order.version + 1 = row.version := congrArg StoredRow.version hsame
      omega
  · intro i order ack horder houtcome
    exact row_of_success hdesk hwritten horder houtcome
  · intro id hid
    refine row_of_no_success hdesk hwritten ?_
    intro i order ack horder _
    exact hid order (List.mem_of_getElem? horder)

end Rows

theorem Recorded.mono {t : Table} {e e' : Engine Order Acknowledgement} {job : Nat}
    {orders : List Order} {r : BatchResult Acknowledgement} (h : Recorded t e job orders r)
    (hgrown : Grown e e') (htable : e'.ledger.table = e.ledger.table) :
    Recorded t e' job orders r := by
  refine ⟨h.length, h.closed, ?_, ?_, ?_, ?_⟩
  · intro i order outcome horder houtcome
    exact (h.answered i order outcome horder houtcome).imp (·.mono hgrown) (·.mono hgrown)
  · rw [htable]
    exact h.changed
  · rw [htable]
    exact h.placed
  · rw [htable]
    exact h.others

theorem TableFollows.mono {t : Table} {e e' : Engine Order Acknowledgement} {job : Nat}
    {orders : List Order} {ending : Ending Acknowledgement} (h : TableFollows t e job orders ending)
    (hgrown : Grown e e') (htable : e'.ledger.table = e.ledger.table) :
    TableFollows t e' job orders ending := by
  rcases ending with crash | error | receipt
  · exact htable.trans h
  · exact htable.trans h
  · cases receipt with
    | batch r => exact Recorded.mono h hgrown htable
    | _ => exact h

/-- Until the one who writes has ended the table is as it was, and then it is known from the ending. -/
theorem Alone.kept {t : Table} {e : Engine P R} {number : Nat} (h : Alone t number e) {j : Job P R}
    (hj : j ∈ e.jobs) (hnumber : j.number = number) :
    (j.ending? = none → e.ledger.table = t) ∧
      ∀ time ending, j.ending? = some (time, ending) → EndKept t e j.assignment ending := by
  have hkept := h.own j hj hnumber
  constructor
  · intro hnone
    obtain ⟨n, a, stage, turn⟩ := j
    cases stage with
    | finished time ending => cases hnone
    | arriving due => exact hkept
    | _ => exact hkept.1
  · intro time ending hending
    rwa [ending?_eq_some hending] at hkept

/-- Until an admission has ended the table is as it was, and then it follows the ending. -/
theorem Alone.tableFollows {c : AppConfig} {service : Service} {store : StatusStore} {t : Table}
    {e : Engine Order Acknowledgement} {number : Nat} (h : Alone t number e)
    (hreached : e.Reached) (hdesk : e.desk = .forOrders c service store)
    {j : Job Order Acknowledgement} (hj : j ∈ e.jobs) (hnumber : j.number = number)
    {orders : List Order} (hassignment : j.assignment = .process orders) :
    (j.ending? = none → e.ledger.table = t) ∧
      ∀ time ending, j.ending? = some (time, ending) → TableFollows t e number orders ending := by
  obtain ⟨hunended, hended⟩ := h.kept hj hnumber
  refine ⟨hunended, ?_⟩
  intro time ending hending
  have hkept := hended time ending hending
  have htells := hreached.truthful j hj
  rw [ending?_eq_some hending, hnumber] at htells
  rw [hassignment] at hkept htells
  rcases ending with crash | error | receipt
  · exact hkept
  · exact hkept
  · cases receipt with
    | batch r => exact recorded hdesk htells hkept.1 hkept.2
    | _ => exact Bool.noConfusion hkept.1

/-- **The table follows the result.** Let an admission be one of several assignments, the only one
that writes statuses, whatever the settings, the stored orders and the service. At every instant of
every course the table is as it was until the admission has ended. If it has ended with a result,
this has one outcome for each order in its place, exactly the rows of the orders with a success have
changed, by one version, and to what was acknowledged; if it has ended without one, the table is as it
was. And what is performed ends in one of these ways. -/
theorem admission_records_acknowledged_orders {c : AppConfig} {service : Service} {latency : Nat}
    {e : Engine Order Acknowledgement} (hrest : e.AtRest)
    (hdesk : e.desk = .forOrders c service (.table latency)) (hfaithful : e.cache.Faithful)
    {assignments : List (Nat × Assignment Order)} {i wait : Nat} {orders : List Order}
    (hassigned : assignments[i]? = some (wait, .process orders))
    (halone : ∀ k x, assignments[k]? = some x → k ≠ i → x.2.isWriter = false) :
    (∀ e', Course (e.addJobs assignments).unturned e' → ∃ j ∈ e'.jobs,
      j.number = e.nextNumber + i ∧ j.assignment = .process orders ∧
      (j.ending? = none → e'.ledger.table = e.ledger.table) ∧
      ∀ time ending, j.ending? = some (time, ending) →
        TableFollows e.ledger.table e' j.number orders ending) ∧
    ∃ time ending, (e.perform assignments).2[i]? = some (some (time, ending)) ∧
      TableFollows e.ledger.table (e.perform assignments).1 (e.nextNumber + i) orders ending := by
  have hordinary : e.Ordinary := ⟨⟨latency, by rw [hdesk]; rfl⟩, hfaithful⟩
  have hwf := hrest.wellFormed assignments
  have hfollows (e' : Engine Order Acknowledgement)
      (hcourse : Course (e.addJobs assignments).unturned e') :
      ∃ j, e'.jobs[i]? = some j ∧ j.number = e.nextNumber + i ∧ j.assignment = .process orders ∧
        (j.ending? = none → e'.ledger.table = e.ledger.table) ∧
        ∀ time ending, j.ending? = some (time, ending) →
          TableFollows e.ledger.table e' j.number orders ending := by
    obtain ⟨j, hj, hnumber, hassignment⟩ := hrest.exists_job hcourse hassigned
    have hkept : e'.desk = .forOrders c service (.table latency) := by
      rw [Course.desk hcourse hwf, addJobs_eq]
      exact hdesk
    have hmem := List.mem_of_getElem? hj
    refine ⟨j, hj, hnumber, hassignment, ?_⟩
    rw [hnumber]
    exact (Course.alone hcourse hwf (hrest.alone hordinary halone)).tableFollows
      (Course.reached hcourse (hrest.reached assignments)) hkept hmem hnumber hassignment
  constructor
  · intro e' hcourse
    obtain ⟨j, hj, hrest⟩ := hfollows e' hcourse
    exact ⟨j, List.mem_of_getElem? hj, hrest⟩
  · obtain ⟨done, hcourse, hsettled, hwf', hdone, hendings⟩ := perform_course hrest assignments
    obtain ⟨j, hj, hnumber, hassignment, _, hended⟩ := hfollows done hcourse
    obtain ⟨time, ending, hstage⟩ :=
      hsettled.finished hwf' (List.mem_of_getElem? hj) (by rw [hassignment]; rfl)
    have hending : j.ending? = some (time, ending) := by rw [Job.ending?, hstage]
    refine ⟨time, ending, ?_, ?_⟩
    · rw [hendings, List.getElem?_map, hj, Option.map_some, hending]
    · have hgrown : Grown done (e.perform assignments).1.unturned := by
        rw [hdone]
        exact ⟨rfl, fun _ hx => hx⟩
      have htable : (e.perform assignments).1.unturned.ledger.table = done.ledger.table := by
        rw [hdone]
      rw [← hnumber]
      exact (hended time ending hending).mono ⟨hgrown.desk, hgrown.exchanges⟩ htable

def hasResult : Option (Option (Nat × Ending R)) → Bool
  | some (some (_, .ok (.ok (.batch _)))) => true
  | _ => false

/-- Two orders, of which the service takes the first and refuses the second, while somebody keeps the
table for a while: the row of the first has changed, and no other. -/
theorem admission_records_one_of_two_orders :
    let first := Order.limit 1 0 "C-1" "ACME" .buy (.ofNat 1) (.ofNat 10)
    let second := Order.limit 2 0 "C-2" "ACME" .buy (.ofNat 1) (.ofNat 10)
    let service : Service :=
      { bulk := fun _ _ => .answers 1 (.ok
          [.ok { reference := "X-1", status := "Filled" },
            .error { status := none, kind := .other, message := "refused" }])
        single := fun _ _ => .hangs }
    let e := begun (.forOrders {} service (.table 2)) {} {} none (Table.ofIds [1, 2, 3]) 0
    let assignments := [(0, .occupy (some 4)), (0, .process [first, second])]
    e.AtRest ∧ e.desk = .forOrders {} service (.table 2) ∧ e.cache.Faithful ∧
      assignments[1]? = some (0, .process [first, second]) ∧
      (∀ k x, assignments[k]? = some x → k ≠ 1 → x.2.isWriter = false) ∧
      ∃ time r, (e.perform assignments).2[1]? = some (some (time, .ok (.ok (.batch r)))) ∧
        Recorded e.ledger.table (e.perform assignments).1 1 [first, second] r := by
  intro first second service e assignments
  have hrest : e.AtRest := begun_atRest _ _ _ _ _ _
  have hfaithful : e.cache.Faithful := begun_faithful _ _ _ _ _ _
  have halone : ∀ k x, assignments[k]? = some x → k ≠ 1 → x.2.isWriter = false := by
    intro k x hx hne
    match k with
    | 0 =>
      obtain rfl : _ = x := Option.some.inj hx
      rfl
    | 1 => exact absurd rfl hne
    | k + 2 => cases hx
  have hassigned : assignments[1]? = some (0, .process [first, second]) := rfl
  obtain ⟨time, ending, hending, hfollows⟩ :=
    (admission_records_acknowledged_orders hrest rfl hfaithful hassigned halone).2
  have hresult : hasResult ((e.perform assignments).2[1]?) = true := by decide +kernel
  rw [hending] at hresult
  rcases ending with crash | error | receipt
  · cases hresult
  · cases hresult
  · cases receipt with
    | batch r => exact ⟨hrest, rfl, hfaithful, hassigned, halone, time, r, hending, hfollows⟩
    | _ => cases hresult

end Engine

end OrderAdmission
