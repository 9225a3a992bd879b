import OrderAdmission.Proofs.Tables
import OrderAdmission.Proofs.Telling

/-!
# What a job does to the table

The table of an engine changes in one place only: where a transaction commits. Here it is followed
what is known of the table at each stage of a job, as long as nobody else writes to it. Until the job
has committed, the table is the one it was; a transaction that goes on has staged the updates of the
statements made so far; and a job that has ended with a result has written an update for each of its
successes. Whatever error or crash it ends with, the table is untouched.

`Kept` puts this in one predicate. The main result is `jobTurn_kept`: **every turn of a job keeps
it**.
-/
namespace OrderAdmission

variable {P R : Type}

/-! ### The updates of a job -/

/-- The update that follows from the answer to an order. -/
def Desk.updateOf (desk : Desk P R) (order : P) (answer : R) : StatusUpdate :=
  let p := desk.place order answer
  { orderId := p.orderId, expectedVersion := p.version
    status := (OrderStatus.ofSpelling? p.status).getD .submitted, extra := some p.extra }

/-- The updates that a job writes: those that follow from the successes of its result, or those it
was given. -/
def Desk.updatesOf (desk : Desk P R) : Assignment P → Option (BatchResult R) → List StatusUpdate
  | .process orders, some r =>
    r.successes.filterMap fun (i, answer) => orders[i]?.map (desk.updateOf · answer)
  | .write updates, none => updates
  | _, _ => []

def Assignment.isWriter : Assignment P → Bool
  | .process _ | .write _ => true
  | _ => false

theorem Assignment.not_isAdmission_of_isOccupation (a : Assignment P)
    (h : a.isOccupation = true) : a.isAdmission = false := by
  cases a with
  | process orders => cases h
  | _ => rfl

theorem Assignment.isWriter_of_isAdmission (a : Assignment P) (h : a.isAdmission = true) :
    a.isWriter = true := by
  cases a with
  | process orders => rfl
  | _ => cases h

/-- A batch that is admitted is empty or has passed the review. -/
def Desk.Passes (desk : Desk P R) (a : Assignment P) : Prop :=
  a.isAdmission = true → a.orders = [] ∨ desk.review a.orders = .ok ()

theorem Desk.updatesOf_of_not_isWriter (desk : Desk P R) {a : Assignment P}
    (h : a.isWriter = false) (result : Option (BatchResult R)) : desk.updatesOf a result = [] := by
  cases a with
  | process orders => cases h
  | write updates => cases h
  | _ => cases result <;> rfl

/-- A transaction on a table that is to make these updates, all of different orders. -/
structure Transacts (t : Table) (updates : List StatusUpdate) (run : WriteRun) : Prop where
  onTable : run.OnTable
  nodup : (updates.map (·.orderId)).Nodup
  staged : ∃ made, made ++ run.remaining.flatten = updates ∧ Staged t made run.staged

namespace Engine

/-! ### What is known of the table -/

/-- An engine that writes statuses to its own table, as they are spelled. -/
structure Ordinary (e : Engine P R) : Prop where
  store : ∃ latency, e.desk.store = .table latency
  faithful : e.cache.Faithful

/-- Where nothing has been written yet. -/
structure Clean (t : Table) (e : Engine P R) (a : Assignment P) : Prop where
  ordinary : e.Ordinary
  table : e.ledger.table = t
  passes : e.desk.Passes a

/-- What is known of the table when a job has ended. -/
def EndKept (t : Table) (e : Engine P R) (a : Assignment P) : Ending R → Prop
  | .ok (.ok (.batch r)) =>
      e.desk.Passes a ∧ Written t (e.desk.updatesOf a (some r)) e.ledger.table
  | .ok (.ok (.written _)) =>
      a.isAdmission = false ∧ Written t (e.desk.updatesOf a none) e.ledger.table
  | .ok (.ok _) => a.isAdmission = false ∧ e.ledger.table = t
  | _ => e.ledger.table = t

/-- What is known of the table from the stage of a job. -/
def StageKept (t : Table) (e : Engine P R) (a : Assignment P) : Stage P R → Prop
  | .arriving _ => e.ledger.table = t
  | .writing result run =>
      e.ledger.table = t ∧ e.desk.Passes a ∧ a.isWriter = true ∧ result.isSome = a.isAdmission ∧
        Transacts t (e.desk.updatesOf a result) run
  | .finished _ ending => EndKept t e a ending
  | _ => e.ledger.table = t ∧ e.desk.Passes a

/-- What is known of an engine and its table from the stage of a job. -/
structure Kept (t : Table) (e : Engine P R) (a : Assignment P) (stage : Stage P R) : Prop where
  ordinary : e.Ordinary
  stage : StageKept t e a stage

/-- What is known of the table after a turn of a status write. -/
def TurnKept (t : Table) (updates : List StatusUpdate) (e : Engine P R) : WriteTurn → Prop
  | .goesOn run => e.ledger.table = t ∧ Transacts t updates run
  | .ends (.ok (.ok _)) => Written t updates e.ledger.table
  | .ends _ => e.ledger.table = t

theorem Ordinary.elsewhere {e e' : Engine P R} (h : e.Ordinary) (hdesk : e'.desk = e.desk)
    (hcache : e'.cache = e.cache) : e'.Ordinary :=
  ⟨hdesk.symm ▸ h.store, hcache.symm ▸ h.faithful⟩

theorem Ordinary.floor {e e' : Engine P R} (h : e.Ordinary) (hfloor : SameFloor e e') :
    e'.Ordinary :=
  ⟨hfloor.desk.symm ▸ h.store, hfloor.faithful h.faithful⟩

theorem Clean.floor {t : Table} {e e' : Engine P R} {a : Assignment P} (h : Clean t e a)
    (hfloor : SameFloor e e') : Clean t e' a :=
  ⟨h.ordinary.floor hfloor, hfloor.table.trans h.table, hfloor.desk.symm ▸ h.passes⟩

theorem Kept.congr {t : Table} {e e' : Engine P R} {a : Assignment P} {stage : Stage P R}
    (h : Kept t e a stage) (hdesk : e'.desk = e.desk) (hfaithful : e'.cache.Faithful)
    (htable : e'.ledger.table = e.ledger.table) : Kept t e' a stage := by
  refine ⟨⟨hdesk.symm ▸ h.ordinary.store, hfaithful⟩, ?_⟩
  have hstage := h.stage
  unfold StageKept EndKept at hstage ⊢
  rwa [hdesk, htable]

/-! ### Turns of a status write -/

theorem endWrite_kept {t : Table} {updates : List StatusUpdate} {e : Engine P R} (job : Nat)
    (htable : e.ledger.table = t) {ending : Except Crash (Except GateError Nat)}
    (hfailed : ∀ rows, ending ≠ .ok (.ok rows)) :
    TurnKept t updates (e.endWrite job ending).1 (e.endWrite job ending).2 := by
  have hsame := (endWrite_floor e job ending).table.trans htable
  rw [endWrite_turn]
  rcases ending with crash | error | rows
  · exact hsame
  · exact hsame
  · cases hfailed rows rfl

/-- The next statement changes nothing yet, and after the last one the table takes the staged rows
over. -/
theorem nextStatement_kept {t : Table} {updates made : List StatusUpdate} {e : Engine P R}
    (job : Nat) {w : WriteRun} (hstore : ∃ latency, e.desk.store = .table latency)
    (htable : e.ledger.table = t) (hnodup : (updates.map (·.orderId)).Nodup)
    (hmade : made ++ w.remaining.flatten = updates) (hstaged : Staged t made w.staged) :
    TurnKept t updates (e.nextStatement job w).1 (e.nextStatement job w).2 := by
  obtain ⟨latency, hstore⟩ := hstore
  cases hremaining : w.remaining with
  | nil =>
    rw [nextStatement_commit e job w latency hremaining hstore, endWrite_turn]
    have hcommitted := (endWrite_floor (e.commitStaged job w.staged) job (.ok (.ok w.total))).table
    rw [hremaining, List.flatten_nil, List.append_nil] at hmade
    refine ⟨w.staged, hmade ▸ hstaged, hcommitted.trans ?_⟩
    rw [← htable]
    rfl
  | cons first rest =>
    simp only [nextStatement, hremaining, hstore]
    exact ⟨htable, Or.inr ⟨_, rfl⟩, hnodup, made, hremaining ▸ hmade, hstaged⟩

theorem rollBack_kept {t : Table} {updates : List StatusUpdate} {e : Engine P R} (job : Nat)
    (w : WriteRun) (error : GateError) (hstore : ∃ latency, e.desk.store = .table latency)
    (htable : e.ledger.table = t) :
    TurnKept t updates (e.rollBack job w error).1 (e.rollBack job w error).2 := by
  obtain ⟨latency, hstore⟩ := hstore
  have hstore' : (e.note (.stored job .rollback)).desk.store = .table latency := hstore
  simp only [rollBack, hstore']
  have hnoted : (e.note (.stored job .rollback)).ledger.table = t := htable
  refine endWrite_kept job hnoted ?_
  intro rows hrows
  cases hrows

theorem afterStatement_kept {t staged : Table} {updates made : List StatusUpdate}
    {counts : List Nat} {e : Engine P R} (job : Nat) {w : WriteRun}
    (hstore : ∃ latency, e.desk.store = .table latency) (htable : e.ledger.table = t)
    (hnodup : (updates.map (·.orderId)).Nodup) (hmade : made ++ w.remaining.flatten = updates)
    (hstaged : Staged t made staged)
    (hcounts : t.stageAll staged (w.remaining.headD []) = (w.staged, .ok counts)) :
    TurnKept t updates (e.afterStatement job w counts).1 (e.afterStatement job w counts).2 := by
  cases hremaining : w.remaining with
  | nil =>
    simp only [afterStatement, hremaining]
    rw [hremaining] at hcounts
    obtain rfl : staged = w.staged := congrArg Prod.fst hcounts
    exact nextStatement_kept job hstore htable hnodup hmade hstaged
  | cons first rest =>
    simp only [afterStatement, hremaining]
    cases hcheck : checkStatement first counts with
    | error error => exact rollBack_kept job w error hstore htable
    | ok =>
      rw [hremaining, List.flatten_cons, ← List.append_assoc] at hmade
      rw [hremaining] at hcounts
      have hsofar : ((made ++ first).map (·.orderId)).Nodup := by
        rw [← hmade, List.map_append] at hnodup
        exact (List.nodup_append.mp hnodup).1
      exact nextStatement_kept job hstore htable hnodup hmade
        (hstaged.statement hsofar hcounts hcheck)

/-- **A turn of a transaction leaves the table alone or commits all updates.** -/
theorem writeTurn_kept {t : Table} {updates : List StatusUpdate} {e : Engine P R} (job : Nat)
    {w : WriteRun} (hstore : ∃ latency, e.desk.store = .table latency)
    (htable : e.ledger.table = t) (h : Transacts t updates w) :
    TurnKept t updates (e.writeTurn job w).1 (e.writeTurn job w).2 := by
  obtain ⟨made, hmade, hstaged⟩ := h.staged
  have hcut : TurnKept t updates (e.cutWrite job).1 (e.cutWrite job).2 :=
    endWrite_kept job htable (by simp)
  rcases h.onTable with hstep | ⟨due, hstep⟩
  · simp only [writeTurn, hstep]
    split
    · exact nextStatement_kept job hstore htable h.nodup hmade hstaged
    · exact hcut
  · simp only [writeTurn, hstep]
    split
    · split
      · exact endWrite_kept job htable (by simp)
      · rename_i counts hcounts
        rw [htable] at hcounts
        exact afterStatement_kept job hstore htable h.nodup hmade hstaged hcounts
    · exact hcut

theorem openWrite_kept {t : Table} (updates : List StatusUpdate) {e : Engine P R} (job : Nat)
    (hstore : ∃ latency, e.desk.store = .table latency) (htable : e.ledger.table = t) :
    TurnKept t updates (e.openWrite job updates).1 (e.openWrite job updates).2 := by
  obtain ⟨latency, hstore⟩ := hstore
  have hsame := (openWrite_floor e job updates).table.trans htable
  simp only [openWrite, hstore] at hsame ⊢
  split
  · rename_i hempty
    rw [List.isEmpty_iff.mp hempty]
    exact Written.nil_iff.mpr htable
  · split
    · exact htable
    · rename_i hdistinct
      refine ⟨(Ledger.table_request e.ledger job).trans htable, Or.inl rfl,
        (nodup_of_firstRepeated hdistinct).1, [], ?_, Staged.nil t⟩
      exact flatten_chunksOf _ updates

/-! ### Endings -/

theorem conclude_kept {t : Table} {e : Engine P R} {a : Assignment P} {ending : Ending R}
    (hordinary : e.Ordinary) (h : EndKept t e a ending) :
    Kept t (e.conclude a ending).1 a (e.conclude a ending).2 := by
  have hkept : Kept t e a (.finished e.now ending) := ⟨hordinary, h⟩
  have hfloor := conclude_floor e a ending
  rw [conclude_eq] at hfloor ⊢
  exact hkept.congr hfloor.desk (hfloor.faithful hordinary.faithful) hfloor.table

theorem conclude_error_kept {t : Table} {e : Engine P R} {a : Assignment P} (h : Clean t e a)
    (error : GateError) :
    Kept t (e.conclude a (.ok (.error error))).1 a (e.conclude a (.ok (.error error))).2 :=
  conclude_kept h.ordinary h.table

theorem conclude_crash_kept {t : Table} {e : Engine P R} {a : Assignment P} (h : Clean t e a)
    (crash : Crash) :
    Kept t (e.conclude a (.error crash)).1 a (e.conclude a (.error crash)).2 :=
  conclude_kept h.ordinary h.table

theorem followWrite_kept {t : Table} {a : Assignment P} {result : Option (BatchResult R)}
    {turn : Engine P R × WriteTurn} (hordinary : turn.1.Ordinary) (hpasses : turn.1.desk.Passes a)
    (hwriter : a.isWriter = true) (hresult : result.isSome = a.isAdmission)
    (hturn : TurnKept t (turn.1.desk.updatesOf a result) turn.1 turn.2) :
    Kept t (followWrite a result turn).1 a (followWrite a result turn).2 := by
  rcases turn with ⟨e, run | crash | error | rows⟩
  · exact ⟨hordinary, hturn.1, hpasses, hwriter, hresult, hturn.2⟩
  · exact conclude_kept hordinary hturn
  · exact conclude_kept hordinary hturn
  · cases result with
    | some r => exact conclude_kept hordinary ⟨hpasses, hturn⟩
    | none => exact conclude_kept hordinary ⟨hresult.symm, hturn⟩

/-! ### The updates of a batch -/

/-- Read by a faithful cache, the updates are what the answers say. -/
theorem updatesFor_eq {e : Engine P R} (orders : List P) (taken : List (Nat × R))
    {updates : List StatusUpdate} {cache : StatusCache} (hfaithful : e.cache.Faithful)
    (h : e.updatesFor orders taken = .ok (updates, cache)) :
    updates = taken.filterMap fun (i, answer) => orders[i]?.map (e.desk.updateOf · answer) := by
  induction taken generalizing e updates cache with
  | nil => exact (congrArg Prod.fst (Except.ok.inj h)).symm
  | cons first rest ih =>
    obtain ⟨i, answer⟩ := first
    simp only [updatesFor] at h
    split at h
    · cases h
    · rename_i order horder
      split at h
      · cases h
      · rename_i us cache' hrest
        obtain ⟨hread, hfaithful'⟩ :=
          StatusCache.Faithful.read hfaithful (e.desk.place order answer).status
        have hfirst : (e.updateFor order answer).1 = e.desk.updateOf order answer := by
          simp only [updateFor, Desk.updateOf, hread]
        have hothers := ih (e := e.setCache (e.updateFor order answer).2) hfaithful' hrest
        have hcons : (e.updateFor order answer).1 :: us = updates :=
          congrArg Prod.fst (Except.ok.inj h)
        rw [← hcons, hfirst, hothers, List.filterMap_cons]
        simp only [horder, Option.map_some]
        rfl

theorem placeOrders_kept {t : Table} {e : Engine P R} {job : Nat} {orders : List P}
    {r : BatchResult R} (h : Clean t e (.process orders)) :
    Kept t (e.placeOrders job (.process orders) r).1 (.process orders)
      (e.placeOrders job (.process orders) r).2 := by
  rw [placeOrders_eq]
  cases hupdates : e.updatesFor (Assignment.process orders).orders r.successes with
  | error crash => exact conclude_crash_kept h crash
  | ok result =>
    obtain ⟨updates, cache⟩ := result
    have hdrafted : updates = e.desk.updatesOf (.process orders) (some r) :=
      updatesFor_eq orders r.successes h.ordinary.faithful hupdates
    have hread := h.floor (setCache_floor e cache (updatesFor_faithful e _ _ hupdates))
    have hopened := openWrite_floor (e.setCache cache) job updates
    have hturn := openWrite_kept updates job hread.ordinary.store hread.table
    refine followWrite_kept (hread.floor hopened).ordinary (hread.floor hopened).passes rfl rfl ?_
    rw [hopened.desk]
    exact hdrafted ▸ hturn

theorem answered_kept {t : Table} {e : Engine P R} {job attempts : Nat} {a : Assignment P}
    {r : BatchResult R} (h : Clean t e a) :
    Kept t (e.answered job a attempts r).1 a (e.answered job a attempts r).2 := by
  have hnothing (hnone : e.desk.updatesOf a (some r) = []) : EndKept t e a (.ok (.ok (.batch r))) := by
    refine ⟨h.passes, ?_⟩
    rw [hnone]
    exact Written.nil_iff.mpr h.table
  cases a with
  | process orders => exact placeOrders_kept h
  | submit orders => exact conclude_kept h.ordinary ⟨rfl, h.table⟩
  | write updates => exact conclude_kept h.ordinary (hnothing rfl)
  | hold stay => exact conclude_kept h.ordinary (hnothing rfl)
  | execute tasks => exact conclude_kept h.ordinary (hnothing rfl)
  | occupy stay => exact conclude_kept h.ordinary (hnothing rfl)

/-! ### The way to a result -/

theorem startBatch_kept {t : Table} {e : Engine P R} {job attempts : Nat} {a : Assignment P}
    {tasks : List (BatchTask P)} (h : Clean t e a) :
    Kept t (followStart job a attempts (e.startBatch job attempts tasks)).1 a
      (followStart job a attempts (e.startBatch job attempts tasks)).2 := by
  rw [startBatch_eq]
  split
  · exact answered_kept h
  · split
    · exact conclude_error_kept h _
    · split
      · exact conclude_crash_kept h _
      · exact conclude_error_kept (h.floor (setBreaker_floor e _)) _
      · exact ⟨h.ordinary.elsewhere rfl rfl, h.table, h.passes⟩

theorem callBulk_kept {t : Table} {e : Engine P R} {job : Nat} {a : Assignment P}
    (attempt deadline : Nat) (h : Clean t e a) :
    Kept t (e.callBulk job a attempt deadline).1 a (e.callBulk job a attempt deadline).2 := by
  simp only [callBulk]
  split
  · exact conclude_crash_kept h _
  · exact ⟨h.ordinary.elsewhere rfl rfl, h.table, h.passes⟩

theorem fallBack_kept {t : Table} {e : Engine P R} {job : Nat} {a : Assignment P} (attempts : Nat)
    (failure : DownstreamFailure) (h : Clean t e a) :
    Kept t (e.fallBack job a attempts failure).1 a (e.fallBack job a attempts failure).2 := by
  simp only [fallBack]
  split
  · exact conclude_error_kept h _
  · exact startBatch_kept h

theorem bulkFailed_kept {t : Table} {e : Engine P R} {job : Nat} {a : Assignment P}
    (run : BulkRun R) (failure : DownstreamFailure) (h : Clean t e a) :
    Kept t (e.bulkFailed job a run failure).1 a (e.bulkFailed job a run failure).2 := by
  have htold := h.floor (report_floor e job .failure)
  have hset (breaker : Breaker) := htold.floor (setBreaker_floor (e.report job .failure) breaker)
  rw [bulkFailed_eq]
  simp only
  split
  · exact conclude_error_kept h _
  · split
    · exact fallBack_kept run.attempt failure htold
    · split
      · exact conclude_crash_kept htold _
      · rename_i breaker _
        exact fallBack_kept run.attempt failure (hset breaker)
      · rename_i breaker _
        split
        · exact fallBack_kept run.attempt failure (hset breaker)
        · exact ⟨(hset breaker).ordinary, (hset breaker).table, (hset breaker).passes⟩

theorem Clean.note {t : Table} {e : Engine P R} {a : Assignment P} (h : Clean t e a)
    (event : Event P R) : Clean t (e.note event) a :=
  ⟨h.ordinary.elsewhere rfl rfl, h.table, h.passes⟩

theorem bulkTurn_kept {t : Table} {e : Engine P R} {job : Nat} {a : Assignment P} (run : BulkRun R)
    (h : Clean t e a) : Kept t (e.bulkTurn job a run).1 a (e.bulkTurn job a run).2 := by
  simp only [bulkTurn]
  split
  · rename_i items _
    split
    · exact answered_kept ((h.note _).floor
        (report_floor (e.note (.bulkEnded job (some (.ok items)))) job _))
    · exact bulkFailed_kept run _ (h.note _)
  · exact bulkFailed_kept run _ (h.note _)
  · exact conclude_crash_kept h _
  · exact bulkFailed_kept run _ (h.note _)

theorem startSubmission_kept {t : Table} {e : Engine P R} {job : Nat} {a : Assignment P}
    (h : Clean t e a) :
    Kept t (e.startSubmission job a).1 a (e.startSubmission job a).2 := by
  simp only [startSubmission]
  split
  · exact startBatch_kept h
  · split
    · exact conclude_crash_kept h _
    · split
      · exact callBulk_kept 1 _ h
      · exact conclude_crash_kept h _

theorem checkOverload_kept {t : Table} {e : Engine P R} {job : Nat} {a : Assignment P}
    (h : Clean t e a) : Kept t (e.checkOverload job a).1 a (e.checkOverload job a).2 := by
  have hset (detector : Detector) := h.floor (setDetector_floor e detector)
  simp only [checkOverload]
  split
  · exact conclude_error_kept (hset _) _
  · exact startSubmission_kept (hset _)

/-- What the review refuses ends at once, and what it passes is known to have passed. -/
theorem startAdmission_kept {t : Table} {e : Engine P R} {job : Nat} {orders : List P}
    (hordinary : e.Ordinary) (htable : e.ledger.table = t) :
    Kept t (e.startAdmission job (.process orders)).1 (.process orders)
      (e.startAdmission job (.process orders)).2 := by
  rw [startAdmission_eq]
  split
  · rename_i hempty
    refine ⟨hordinary, fun _ => Or.inl (List.isEmpty_iff.mp hempty), ?_⟩
    exact Written.nil_iff.mpr htable
  · split
    · exact ⟨hordinary, htable⟩
    · rename_i hreview
      have hentered : Clean t e.enterRequest (.process orders) :=
        ⟨hordinary.floor (enterRequest_floor e), htable, fun _ => Or.inr hreview⟩
      have hset (breaker : Breaker) := hentered.floor (setBreaker_floor e.enterRequest breaker)
      split
      · exact conclude_crash_kept hentered _
      · exact conclude_error_kept (hset _) _
      · exact checkOverload_kept (hset _)

theorem keepPermit_kept {t : Table} {e : Engine P R} {a : Assignment P} (stay : Option Nat)
    (h : Clean t e a) (hadmission : a.isAdmission = false) :
    Kept t (e.keepPermit stay).1 a (e.keepPermit stay).2 := by
  cases stay with
  | some stay => exact ⟨h.ordinary, h.table, h.passes⟩
  | none => exact ⟨h.ordinary, hadmission, h.table⟩

theorem startJob_kept {t : Table} {e : Engine P R} {job : Nat} {a : Assignment P}
    (hordinary : e.Ordinary) (htable : e.ledger.table = t) :
    Kept t (e.startJob job a).1 a (e.startJob job a).2 := by
  have hclean (hpasses : a.isAdmission = false) : Clean t e a :=
    ⟨hordinary, htable, fun hadmission => absurd hadmission (by simp [hpasses])⟩
  cases a with
  | hold stay =>
    simp only [startJob]
    split
    · rename_i limiter _
      exact keepPermit_kept (e := e.setLimiter limiter) stay
        ⟨hordinary.elsewhere rfl rfl, htable, (hclean rfl).passes⟩ rfl
    · exact ⟨hordinary.elsewhere rfl rfl, htable, (hclean rfl).passes⟩
  | execute tasks => exact startBatch_kept (hclean rfl)
  | submit orders =>
    simp only [startJob]
    split
    · exact ⟨hordinary, rfl, htable⟩
    · exact startSubmission_kept (hclean rfl)
  | process orders => exact startAdmission_kept hordinary htable
  | occupy stay =>
    exact ⟨hordinary.elsewhere rfl rfl,
      (Ledger.table_request e.ledger job).trans htable, (hclean rfl).passes⟩
  | write updates =>
    have hopened := openWrite_floor e job updates
    refine followWrite_kept (hordinary.floor hopened) ?_ rfl rfl ?_
    · intro hadmission
      cases hadmission
    · exact openWrite_kept updates job hordinary.store htable

/-! ### Turns -/

theorem settled_clean {t : Table} {e : Engine P R} {a : Assignment P} (job : Nat)
    (run : BatchRun P R) (h : Clean t e a) : Clean t (e.settled job run).1 a := by
  have hdismissed : Clean t (e.dismissAll job) a :=
    ⟨h.ordinary.elsewhere rfl rfl, h.table, h.passes⟩
  exact hdismissed.floor (settled_floor e job run)

theorem joinTurn_kept {t : Table} {e : Engine P R} {job : Nat} {a : Assignment P}
    (attempts : Nat) (run : BatchRun P R) (h : Clean t e a) :
    Kept t (followBatch job a attempts (e.joinTurn job attempts run)).1 a
      (followBatch job a attempts (e.joinTurn job attempts run)).2 := by
  have hsettled := settled_clean job run h
  rw [joinTurn_eq]
  split
  · exact ⟨h.ordinary.elsewhere rfl rfl, h.table, h.passes⟩
  · simp only [endChunk_eq]
    split
    · exact answered_kept hsettled
    · split
      · exact ⟨hsettled.ordinary, hsettled.table, hsettled.passes⟩
      · exact ⟨hsettled.ordinary.elsewhere rfl rfl, hsettled.table,
          hsettled.passes⟩

/-- **Every turn of a job keeps what is known of the table from its stage.** -/
theorem jobTurn_kept {t : Table} {e : Engine P R} {j : Job P R}
    (hsound : j.stage.Sound e.desk.fallback.retry.maxRetries j.assignment)
    (h : Kept t e j.assignment j.stage) :
    Kept t (e.jobTurn j).1 j.assignment (e.jobTurn j).2 := by
  obtain ⟨number, a, stage, turn⟩ := j
  obtain ⟨hordinary, hstage⟩ := h
  cases stage with
  | arriving due => exact startJob_kept hordinary hstage
  | queued limit =>
    obtain ⟨stay, rfl⟩ := hsound
    simp only [jobTurn]
    split
    · exact keepPermit_kept (e := e.setLimiter (e.limiter.claim number)) _
        ⟨hordinary.elsewhere rfl rfl, hstage.1, hstage.2⟩ rfl
    · exact ⟨hordinary.elsewhere rfl rfl, hstage.1⟩
  | holding since due =>
    obtain ⟨stay, rfl⟩ := hsound
    exact ⟨hordinary.elsewhere rfl rfl, rfl, hstage.1⟩
  | approaching => exact ⟨hordinary, hstage⟩
  | occupying due =>
    have hadmission : a.isAdmission = false := a.not_isAdmission_of_isOccupation hsound
    exact ⟨hordinary.elsewhere rfl rfl, hadmission,
      (Ledger.table_leave e.ledger number).trans hstage.1⟩
  | calling run => exact bulkTurn_kept run ⟨hordinary, hstage.1, hstage.2⟩
  | backingOff attempt deadline due =>
    exact callBulk_kept (attempt + 1) deadline ⟨hordinary, hstage.1, hstage.2⟩
  | joining attempts run => exact joinTurn_kept attempts run ⟨hordinary, hstage.1, hstage.2⟩
  | pausing attempts run due =>
    exact ⟨hordinary.elsewhere rfl rfl, hstage.1, hstage.2⟩
  | writing result run =>
    obtain ⟨htable, hpasses, hwriter, hresult, htransacts⟩ := hstage
    have hfloor := writeTurn_floor e number run
    have hturn := writeTurn_kept number hordinary.store htable htransacts
    have hafter : (e.writeTurn number run).1.Ordinary :=
      ⟨hfloor.desk.symm ▸ hordinary.store, hfloor.faithful hordinary.faithful⟩
    refine followWrite_kept hafter (hfloor.desk.symm ▸ hpasses) hwriter hresult ?_
    rw [hfloor.desk]
    exact hturn
  | finished time ending => exact ⟨hordinary, hstage⟩

end Engine

end OrderAdmission
