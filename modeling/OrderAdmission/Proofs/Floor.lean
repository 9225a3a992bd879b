import OrderAdmission.Proofs.Stages

/-!
# The floor

The *floor* of an engine is where tasks work: the permits, the workers, the clock, the settings, the
number of calls for one order, and what has been exchanged with the service. The table of rows is on
the floor as well, and the cache is as far as it reads statuses as they are spelled. Everything else
is paper: the rest of the journal, the breaker, the requests, and who is to have the table.

Most turns of a job are paper work. `Sends` says what a turn can do to the floor when a job begins or
waits for a bulk call: it leaves the floor alone, or it opens the first chunk of its tasks. The
statements about permits and about outcomes are derived from this classification.
-/
namespace OrderAdmission

variable {P R : Type}

/-- A cache that remembers every text as it is read. -/
def StatusCache.Faithful (c : StatusCache) : Prop :=
  ∀ raw known, c.entries.lookup raw = some known → known = OrderStatus.ofSpelling? raw

theorem lookup_cons_eq {raw key : String} {status : Option OrderStatus}
    {entries : List (String × Option OrderStatus)} {known : Option OrderStatus}
    (h : ((key, status) :: entries).lookup raw = some known) :
    (raw = key ∧ known = status) ∨ entries.lookup raw = some known := by
  rw [List.lookup_cons] at h
  by_cases hkey : raw = key
  · simp only [hkey, beq_self_eq_true] at h
    exact Or.inl ⟨hkey, (Option.some.inj h).symm⟩
  · have hne : (raw == key) = false := by simpa using hkey
    simp only [hne] at h
    exact Or.inr h

theorem StatusCache.Faithful.read {c : StatusCache} (h : c.Faithful) (raw : String) :
    (c.read raw).1 = OrderStatus.ofSpelling? raw ∧ (c.read raw).2.Faithful := by
  unfold StatusCache.read
  cases hlookup : c.entries.lookup raw with
  | some known => exact ⟨h raw known hlookup, h⟩
  | none =>
    generalize hstatus : OrderStatus.ofSpelling? raw = status
    simp only
    split
    · refine ⟨rfl, ?_⟩
      intro raw' known' hknown
      rcases lookup_cons_eq hknown with ⟨rfl, rfl⟩ | hold
      · exact hstatus.symm
      · exact h raw' known' hold
    · exact ⟨rfl, h⟩

theorem Ledger.table_request (l : Ledger) (job : Nat) : (l.request job).table = l.table := by
  unfold Ledger.request
  split <;> rfl

theorem Ledger.table_leave (l : Ledger) (job : Nat) : (l.leave job).table = l.table := by
  unfold Ledger.leave
  split
  · unfold Ledger.pass
    split <;> rfl
  · rfl

/-- Whether an event is the beginning of a call for one order, or something that came back from the
service. -/
def Event.isExchange : Event P R → Bool
  | .bulkEnded _ _ | .singleCalled _ _ _ _ | .singleEnded _ _ _ => true
  | _ => false

/-- Whose event it is. -/
def Event.job : Event P R → Nat
  | .bulkCalled job _ | .bulkEnded job _ | .singleCalled job _ _ _ | .singleEnded job _ _
  | .reported job _ _ | .cutOff job _ _ | .stored job _ => job

namespace Engine

/-- What has been exchanged with the service, the latest first. -/
def exchanges (e : Engine P R) : List (Entry P R) := e.journal.filter (·.event.isExchange)

/-- Two engines with the same floor. -/
structure SameFloor (e e' : Engine P R) : Prop where
  desk : e'.desk = e.desk
  now : e'.now = e.now
  limiter : e'.limiter = e.limiter
  workers : e'.workers = e.workers
  jobs : e'.jobs = e.jobs
  nextNumber : e'.nextNumber = e.nextNumber
  singleCalls : e'.singleCalls = e.singleCalls
  exchanges : e'.exchanges = e.exchanges
  table : e'.ledger.table = e.ledger.table
  faithful : e.cache.Faithful → e'.cache.Faithful

namespace SameFloor

theorem refl (e : Engine P R) : SameFloor e e := ⟨rfl, rfl, rfl, rfl, rfl, rfl, rfl, rfl, rfl, id⟩

theorem trans {e₁ e₂ e₃ : Engine P R} (h₁ : SameFloor e₁ e₂) (h₂ : SameFloor e₂ e₃) :
    SameFloor e₁ e₃ :=
  ⟨h₂.desk.trans h₁.desk, h₂.now.trans h₁.now, h₂.limiter.trans h₁.limiter,
    h₂.workers.trans h₁.workers, h₂.jobs.trans h₁.jobs, h₂.nextNumber.trans h₁.nextNumber,
    h₂.singleCalls.trans h₁.singleCalls, h₂.exchanges.trans h₁.exchanges,
    h₂.table.trans h₁.table, fun h => h₂.faithful (h₁.faithful h)⟩

theorem setLedger {e e' : Engine P R} (h : SameFloor e e') :
    SameFloor (e.setLedger e'.ledger) e' :=
  ⟨h.desk, h.now, h.limiter, h.workers, h.jobs, h.nextNumber, h.singleCalls, h.exchanges, rfl,
    h.faithful⟩

end SameFloor

/-! ### Paper work -/

theorem note_floor (e : Engine P R) (event : Event P R) (h : event.isExchange = false) :
    SameFloor e (e.note event) := by
  refine ⟨rfl, rfl, rfl, rfl, rfl, rfl, rfl, ?_, rfl, id⟩
  simp only [exchanges, note, List.filter_cons, h, Bool.false_eq_true, ↓reduceIte]

theorem report_floor (e : Engine P R) (job : Nat) (r : Report) : SameFloor e (e.report job r) :=
  ⟨rfl, rfl, rfl, rfl, rfl, rfl, rfl, rfl, rfl, id⟩

theorem setBreaker_floor (e : Engine P R) (breaker : Breaker) :
    SameFloor e (e.setBreaker breaker) :=
  ⟨rfl, rfl, rfl, rfl, rfl, rfl, rfl, rfl, rfl, id⟩

theorem setCache_floor (e : Engine P R) (cache : StatusCache)
    (h : e.cache.Faithful → cache.Faithful) : SameFloor e (e.setCache cache) :=
  ⟨rfl, rfl, rfl, rfl, rfl, rfl, rfl, rfl, rfl, h⟩

theorem setDetector_floor (e : Engine P R) (detector : Detector) :
    SameFloor e (e.setDetector detector) :=
  ⟨rfl, rfl, rfl, rfl, rfl, rfl, rfl, rfl, rfl, id⟩

theorem enterRequest_floor (e : Engine P R) : SameFloor e e.enterRequest :=
  ⟨rfl, rfl, rfl, rfl, rfl, rfl, rfl, rfl, rfl, id⟩

theorem conclude_floor (e : Engine P R) (a : Assignment P) (ending : Ending R) :
    SameFloor e (e.conclude a ending).1 := by
  rw [conclude_eq]
  exact ⟨rfl, rfl, rfl, rfl, rfl, rfl, rfl, rfl, rfl, id⟩

theorem followWrite_floor (a : Assignment P) (result : Option (BatchResult R))
    (turn : Engine P R × WriteTurn) : SameFloor turn.1 (followWrite a result turn).1 := by
  obtain ⟨e, goes | ending⟩ := turn
  · exact SameFloor.refl e
  · rcases ending with crash | error | rows
    · exact conclude_floor e a _
    · exact conclude_floor e a _
    · cases result <;> exact conclude_floor e a _

theorem setLedger_floor (e : Engine P R) (ledger : Ledger) (h : ledger.table = e.ledger.table) :
    SameFloor e (e.setLedger ledger) :=
  ⟨rfl, rfl, rfl, rfl, rfl, rfl, rfl, rfl, h, id⟩

theorem endWrite_floor (e : Engine P R) (job : Nat)
    (ending : Except Crash (Except GateError Nat)) : SameFloor e (e.endWrite job ending).1 := by
  simp only [endWrite]
  split
  · exact setLedger_floor e _ (Ledger.table_leave e.ledger job)
  · exact SameFloor.refl e

theorem openWrite_floor (e : Engine P R) (job : Nat) (updates : List StatusUpdate) :
    SameFloor e (e.openWrite job updates).1 := by
  have hnoted := note_floor e (.stored job .begin) rfl
  simp only [openWrite]
  split
  · exact SameFloor.refl e
  · split
    · exact SameFloor.refl e
    · split
      · exact hnoted.trans (setLedger_floor (e.note (.stored job .begin)) _
          (Ledger.table_request e.ledger job))
      · exact hnoted

/-! ### Turns of a status write -/

theorem nextStatement_floor (e : Engine P R) (job : Nat) (w : WriteRun) :
    SameFloor (e.setLedger (e.nextStatement job w).1.ledger) (e.nextStatement job w).1 := by
  cases hremaining : w.remaining with
  | cons updates rest =>
    simp only [nextStatement, hremaining]
    split
    · exact (note_floor e _ rfl).setLedger
    · exact (note_floor e _ rfl).setLedger
    · contradiction
    · contradiction
  | nil =>
    cases hstore : e.desk.store with
    | outside script =>
      simp only [nextStatement, hremaining, hstore]
      exact (note_floor e _ rfl).setLedger
    | table latency =>
      rw [nextStatement_commit e job w latency hremaining hstore]
      have hended := endWrite_floor (e.commitStaged job w.staged) job (.ok (.ok w.total))
      exact ⟨hended.desk, hended.now, hended.limiter, hended.workers, hended.jobs,
        hended.nextNumber, hended.singleCalls, hended.exchanges, rfl, hended.faithful⟩

theorem rollBack_floor (e : Engine P R) (job : Nat) (w : WriteRun) (error : GateError) :
    SameFloor e (e.rollBack job w error).1 := by
  simp only [rollBack]
  split
  · exact (note_floor e _ rfl).trans (endWrite_floor (e.note (.stored job .rollback)) job _)
  · exact note_floor e _ rfl

theorem afterStatement_floor (e : Engine P R) (job : Nat) (w : WriteRun) (counts : List Nat) :
    SameFloor (e.setLedger (e.afterStatement job w counts).1.ledger)
      (e.afterStatement job w counts).1 := by
  cases hremaining : w.remaining with
  | nil =>
    simp only [afterStatement, hremaining]
    exact nextStatement_floor e job w
  | cons updates rest =>
    simp only [afterStatement, hremaining]
    cases checkStatement updates counts with
    | error error => exact (rollBack_floor e job w error).setLedger
    | ok => exact nextStatement_floor e job _

theorem writeTurn_floor (e : Engine P R) (job : Nat) (w : WriteRun) :
    SameFloor (e.setLedger (e.writeTurn job w).1.ledger) (e.writeTurn job w).1 := by
  have hend (ending : Except Crash (Except GateError Nat)) :=
    (endWrite_floor e job ending).setLedger
  unfold writeTurn
  split
  · split
    · exact nextStatement_floor e job w
    · exact hend _
  · split
    · exact nextStatement_floor e job w
    · exact hend _
    · exact hend _
    · exact hend _
  · split
    · split
      · exact hend _
      · exact afterStatement_floor e job _ _
    · exact hend _
  · split
    · exact afterStatement_floor e job w _
    · exact (rollBack_floor e job w _).setLedger
    · exact hend _
    · exact hend _
  · split <;> exact hend _
  · split <;> exact hend _

/-! ### The end of a batch -/

theorem updatesFor_faithful (e : Engine P R) (orders : List P) (taken : List (Nat × R))
    {updates : List StatusUpdate} {cache : StatusCache}
    (hupdates : e.updatesFor orders taken = .ok (updates, cache)) (h : e.cache.Faithful) :
    cache.Faithful := by
  induction taken generalizing e updates cache with
  | nil =>
    simp only [updatesFor, Except.ok.injEq, Prod.mk.injEq] at hupdates
    exact hupdates.2 ▸ h
  | cons first rest ih =>
    obtain ⟨i, answer⟩ := first
    simp only [updatesFor] at hupdates
    split at hupdates
    · cases hupdates
    · rename_i order _
      split at hupdates
      · cases hupdates
      · rename_i hrest
        simp only [Except.ok.injEq, Prod.mk.injEq] at hupdates
        rw [← hupdates.2]
        exact ih (e.setCache (e.updateFor order answer).2) hrest
          (StatusCache.Faithful.read h (e.desk.place order answer).status).2

theorem answered_floor (e : Engine P R) (job : Nat) (a : Assignment P) (attempts : Nat)
    (result : BatchResult R) : SameFloor e (e.answered job a attempts result).1 := by
  cases a with
  | process orders =>
    simp only [answered]
    rw [placeOrders_eq]
    split
    · exact conclude_floor e _ _
    · rename_i updates cache hupdates
      have hcache := setCache_floor e cache (updatesFor_faithful e _ _ hupdates)
      exact (hcache.trans (openWrite_floor (e.setCache cache) job updates)).trans
        (followWrite_floor _ _ _)
  | _ => exact conclude_floor e _ _

theorem settleChunk_floor (e : Engine P R) (job : Nat) (reason : String) (chunk : List Nat)
    (outcomes : List (Outcome R)) :
    SameFloor e (e.settleChunk job reason chunk outcomes).1 := by
  induction chunk generalizing e outcomes with
  | nil => exact SameFloor.refl e
  | cons index rest ih =>
    simp only [settleChunk]
    split
    · exact (report_floor e job .failure).trans (ih _ _)
    · exact ih e outcomes

end Engine

end OrderAdmission
