import OrderAdmission.Proofs.Routes

/-!
# Who has the table

A job is *at the table* from when it comes for the table, or begins a status write, until it is done
with it. The ledger keeps those at the table in one line: the holder, and behind it the queue in order
of arrival.

`LedgerTurn` says what a turn of a job can do to the ledger, and `Custody` what holds of it at every
instant: the line has everybody at the table and nobody else, only its head touches the table, and a
write that is still waiting has staged nothing. The main result is `Move.custody`: **every move keeps
the table in custody**.
-/
namespace OrderAdmission

variable {P R : Type}

/-! ### The line -/

namespace Ledger

/-- Who has the table, and then who waits for it. -/
def line (l : Ledger) : List Nat := l.holder.toList ++ l.queue

/-- The table is free only if nobody waits for it. -/
def Fair (l : Ledger) : Prop := l.holder = none → l.queue = []

/-- Nobody has the table, and nobody waits for it. -/
def Free (l : Ledger) : Prop := l.holder = none ∧ l.queue = []

theorem line_request {l : Ledger} (h : l.Fair) (job : Nat) :
    (l.request job).line = l.line ++ [job] := by
  unfold request line
  split
  · rename_i hnone
    rw [hnone, h hnone]
    rfl
  · simp

theorem fair_request (l : Ledger) (job : Nat) : (l.request job).Fair := by
  unfold request
  split
  · intro hnone
    cases hnone
  · rename_i hsome
    intro hnone
    exact absurd hnone hsome

theorem holder_request {l : Ledger} {job other : Nat} (h : l.holder = some other) :
    (l.request job).holder = some other := by
  unfold request
  rw [if_neg (by rw [h]; simp)]
  exact h

theorem line_leave {l : Ledger} (h : l.Fair) (job : Nat) :
    (l.leave job).line = l.line.erase job := by
  unfold leave
  split
  · rename_i hholder
    unfold pass line
    cases hqueue : l.queue with
    | nil => simp [hholder]
    | cons next rest => simp [hholder]
  · rename_i hother
    unfold line
    cases hholder : l.holder with
    | none => simp [h hholder]
    | some other =>
      have hne : other ≠ job := fun hsame => hother (by rw [hholder, hsame])
      simp [hne]

theorem fair_leave {l : Ledger} (h : l.Fair) (job : Nat) : (l.leave job).Fair := by
  unfold leave
  split
  · unfold pass
    split
    · exact fun _ => by assumption
    · intro hnone
      cases hnone
  · intro hnone
    simp [h hnone]

theorem holder_leave {l : Ledger} {job other : Nat} (h : l.holder = some other)
    (hne : other ≠ job) : (l.leave job).holder = some other := by
  unfold leave
  rw [if_neg (by rw [h]; simpa using hne)]
  exact h

theorem free_of_line {l : Ledger} (h : l.line = []) : l.Free := by
  obtain ⟨hholder, hqueue⟩ := List.append_eq_nil_iff.mp h
  exact ⟨by simpa using hholder, hqueue⟩

theorem Free.line {l : Ledger} (h : l.Free) : l.line = [] := by
  unfold Ledger.line
  rw [h.1, h.2]
  rfl

end Ledger

namespace Stage

/-- Whether a job at this stage has the table or waits for it. -/
def isAtTable : Stage P R → Bool
  | .approaching | .occupying _ | .writing _ _ => true
  | _ => false

/-- Whether a job at this stage has used the table. -/
def hasTable : Stage P R → Bool
  | .occupying _ => true
  | .writing _ run => match run.step with
    | .queued => false
    | _ => true
  | _ => false

/-- A job at this stage has come for the table and done nothing with it. -/
def IsWaiting : Stage P R → Prop
  | .approaching => True
  | .writing _ run => run.step = .queued ∧ run.staged = []
  | _ => False

theorem isAtTable_of_hasTable {stage : Stage P R} (h : stage.hasTable = true) :
    stage.isAtTable = true := by
  cases stage <;> first | rfl | cases h

theorem IsWaiting.isAtTable {stage : Stage P R} (h : stage.IsWaiting) :
    stage.isAtTable = true := by
  cases stage <;> first | rfl | cases h

theorem IsWaiting.not_hasTable {stage : Stage P R} (h : stage.IsWaiting) :
    stage.hasTable = false := by
  cases stage with
  | writing result run => simp only [hasTable, show run.step = .queued from h.1]
  | approaching => rfl
  | _ => cases h

end Stage

namespace Engine

/-! ### What turns do to the ledger -/

/-- What a turn of a job can do to the ledger of an engine. -/
inductive LedgerTurn (e : Engine P R) (j : Job P R) : Engine P R × Stage P R → Prop where
  /-- The job has nothing to do with the table. -/
  | apart {result : Engine P R × Stage P R} (before : j.stage.isAtTable = false)
      (after : result.2.isAtTable = false) (same : result.1.ledger = e.ledger) :
      LedgerTurn e j result
  /-- The job comes for the table. -/
  | joins {result : Engine P R × Stage P R} (before : j.stage.isAtTable = false)
      (after : result.2.IsWaiting) (request : result.1.ledger = e.ledger.request j.number) :
      LedgerTurn e j result
  /-- The job has the table and goes on. -/
  | stays {result : Engine P R × Stage P R} (before : j.stage.isAtTable = true)
      (after : result.2.hasTable = true) (owner : e.ledger.holder = some j.number)
      (same : result.1.ledger = e.ledger) : LedgerTurn e j result
  /-- The job is done with the table, or has waited for too long. -/
  | leaves {result : Engine P R × Stage P R} {table : Table} (before : j.stage.isAtTable = true)
      (after : result.2.isAtTable = false)
      (owner : table = e.ledger.table ∨ e.ledger.holder = some j.number)
      (leave : result.1.ledger = { e.ledger with table }.leave j.number) : LedgerTurn e j result

/-- A job that has nothing to do with the table keeps away from it or comes for it. -/
def Approaches (e : Engine P R) (job : Nat) (result : Engine P R × Stage P R) : Prop :=
  (result.2.isAtTable = false ∧ result.1.ledger = e.ledger) ∨
    (result.2.IsWaiting ∧ result.1.ledger = e.ledger.request job)

theorem Approaches.turn {e : Engine P R} {j : Job P R} {result : Engine P R × Stage P R}
    (h : Approaches e j.number result) (before : j.stage.isAtTable = false) :
    LedgerTurn e j result := by
  rcases h with ⟨after, same⟩ | ⟨after, request⟩
  · exact .apart before after same
  · exact .joins before after request

theorem Approaches.congr {e e₁ : Engine P R} {job : Nat} {result : Engine P R × Stage P R}
    (h : Approaches e₁ job result) (hledger : e₁.ledger = e.ledger) :
    Approaches e job result := by
  unfold Approaches at h ⊢
  rwa [← hledger]

section Writes

variable {e : Engine P R} {job latency : Nat}

theorem conclude_approaches (e : Engine P R) (job : Nat) (a : Assignment P) (ending : Ending R) :
    Approaches e job (e.conclude a ending) := by
  rw [conclude_eq]
  exact Or.inl ⟨rfl, rfl⟩

theorem openWrite_approaches (hstore : e.desk.store = .table latency) (a : Assignment P)
    (result : Option (BatchResult R)) (updates : List StatusUpdate) :
    Approaches e job (followWrite a result (e.openWrite job updates)) := by
  simp only [openWrite, hstore]
  split
  · cases result <;> exact conclude_approaches e job a _
  · split
    · exact conclude_approaches e job a _
    · exact Or.inr ⟨⟨rfl, rfl⟩, rfl⟩

theorem answered_approaches (hstore : e.desk.store = .table latency) (a : Assignment P)
    (attempts : Nat) (r : BatchResult R) : Approaches e job (e.answered job a attempts r) := by
  cases a with
  | process orders =>
    simp only [answered]
    rw [placeOrders_eq]
    split
    · exact conclude_approaches e job _ _
    · rename_i updates cache _
      exact openWrite_approaches (e := e.setCache cache) hstore _ _ updates
  | _ => exact conclude_approaches e job _ _

theorem Ways.approaches {a : Assignment P} {attempts : Nat} {result : Engine P R × Stage P R}
    (h : Ways e job a attempts result) (hstore : e.desk.store = .table latency) :
    Approaches e job result := by
  cases h with
  | refused paper refusal =>
    exact (conclude_approaches _ job a _).congr (Paper.frame paper).ledger
  | calls paper submission => exact Or.inl ⟨rfl, (Paper.frame paper).ledger⟩
  | waits paper submission => exact Or.inl ⟨rfl, (Paper.frame paper).ledger⟩
  | opens paper some valid admitted => exact Or.inl ⟨rfl, (Paper.frame paper).ledger⟩
  | empties paper none =>
    have hframe := Paper.frame paper
    rw [← hframe.floor.desk] at hstore
    exact (answered_approaches hstore a attempts .empty).congr hframe.ledger

/-- What a turn of a status write does to the ledger: it goes on with the table, or is done with it. -/
def Holds (e : Engine P R) (job : Nat) (result : Engine P R × WriteTurn) : Prop :=
  match result.2 with
  | .goesOn run =>
      run.step ≠ .queued ∧ e.ledger.holder = some job ∧ result.1.ledger = e.ledger
  | .ends _ => ∃ table, (table = e.ledger.table ∨ e.ledger.holder = some job) ∧
      result.1.ledger = { e.ledger with table }.leave job

theorem endWrite_holds (hstore : e.desk.store = .table latency)
    (ending : Except Crash (Except GateError Nat)) : Holds e job (e.endWrite job ending) := by
  simp only [endWrite, hstore]
  exact ⟨e.ledger.table, Or.inl rfl, rfl⟩

theorem nextStatement_holds (hstore : e.desk.store = .table latency)
    (howner : e.ledger.holder = some job) (w : WriteRun) :
    Holds e job (e.nextStatement job w) := by
  cases hremaining : w.remaining with
  | nil =>
    rw [nextStatement_commit e job w latency hremaining hstore]
    have hstore' : (e.commitStaged job w.staged).desk.store = .table latency := hstore
    simp only [endWrite, hstore']
    exact ⟨_, Or.inr howner, rfl⟩
  | cons updates rest =>
    simp only [nextStatement, hremaining, hstore]
    exact ⟨by simp, howner, rfl⟩

theorem afterStatement_holds (hstore : e.desk.store = .table latency)
    (howner : e.ledger.holder = some job) (w : WriteRun) (counts : List Nat) :
    Holds e job (e.afterStatement job w counts) := by
  cases hremaining : w.remaining with
  | nil =>
    simp only [afterStatement, hremaining]
    exact nextStatement_holds hstore howner w
  | cons updates rest =>
    simp only [afterStatement, hremaining]
    split
    · have hstore' : (e.note (.stored job .rollback)).desk.store = .table latency := hstore
      simp only [rollBack, hstore']
      exact endWrite_holds (e := e.note (.stored job .rollback)) hstore _
    · exact nextStatement_holds hstore howner _

theorem rollBack_holds (hstore : e.desk.store = .table latency) (w : WriteRun)
    (error : GateError) : Holds e job (e.rollBack job w error) := by
  have hstore' : (e.note (.stored job .rollback)).desk.store = .table latency := hstore
  simp only [rollBack, hstore']
  exact endWrite_holds (e := e.note (.stored job .rollback)) hstore _

/-- A write that waits for its turn at the table gets it or gives up; any other has it. -/
theorem writeTurn_holds (hstore : e.desk.store = .table latency) {w : WriteRun}
    (howner : w.step ≠ .queued → e.ledger.holder = some job) :
    Holds e job (e.writeTurn job w) := by
  cases hstep : w.step with
  | queued =>
    simp only [writeTurn, hstep]
    split
    · rename_i hholder
      exact nextStatement_holds hstore hholder w
    · exact endWrite_holds hstore _
  | opening call =>
    have hholder := howner (by rw [hstep]; simp)
    simp only [writeTurn, hstep]
    split
    · exact nextStatement_holds hstore hholder w
    · exact endWrite_holds hstore _
    · exact endWrite_holds hstore _
    · exact endWrite_holds hstore _
  | stating due =>
    have hholder := howner (by rw [hstep]; simp)
    simp only [writeTurn, hstep]
    split
    · split
      · exact endWrite_holds hstore _
      · exact afterStatement_holds hstore hholder _ _
    · exact endWrite_holds hstore _
  | asking call =>
    have hholder := howner (by rw [hstep]; simp)
    simp only [writeTurn, hstep]
    split
    · exact afterStatement_holds hstore hholder w _
    · exact rollBack_holds hstore w _
    · exact endWrite_holds hstore _
    · exact endWrite_holds hstore _
  | committing call =>
    simp only [writeTurn, hstep]
    split <;> exact endWrite_holds hstore _
  | rollingBack error call =>
    simp only [writeTurn, hstep]
    split <;> exact endWrite_holds hstore _

theorem followWrite_turn {j : Job P R} {result : Option (BatchResult R)}
    {turn : Engine P R × WriteTurn} (before : j.stage.isAtTable = true)
    (h : Holds e j.number turn) : LedgerTurn e j (followWrite j.assignment result turn) := by
  rcases turn with ⟨e', run | crash | error | rows⟩
  · obtain ⟨hstep, howner, hsame⟩ := h
    refine .stays before ?_ howner hsame
    simp only [followWrite, Stage.hasTable]
  · obtain ⟨table, howner, hleave⟩ := h
    refine .leaves before ?_ howner ?_
    · simp only [followWrite, conclude_eq]
      rfl
    · simp only [followWrite, conclude_eq]
      exact hleave
  · obtain ⟨table, howner, hleave⟩ := h
    refine .leaves before ?_ howner ?_
    · simp only [followWrite, conclude_eq]
      rfl
    · simp only [followWrite, conclude_eq]
      exact hleave
  · obtain ⟨table, howner, hleave⟩ := h
    refine .leaves before ?_ howner ?_
    · cases result <;> (simp only [followWrite, conclude_eq]; rfl)
    · cases result <;> (simp only [followWrite, conclude_eq]; exact hleave)

end Writes

theorem settled_ledger (e : Engine P R) (job : Nat) (run : BatchRun P R) :
    (e.settled job run).1.ledger = e.ledger :=
  (Paper.frame (settleChunk_paper (e.dismissAll job) job _ _ _)).ledger

theorem heard_ledger (e : Engine P R) (j : Job P R) : (e.heard j).ledger = e.ledger := by
  rw [heard_eq]

/-- **What turns of jobs do to the ledger of an engine that writes to its own table.** -/
theorem Route.ledgerTurn {e : Engine P R} {j : Job P R} {result : Engine P R × Stage P R}
    (h : Route e j result) {latency : Nat} (hstore : e.desk.store = .table latency)
    (howner : j.stage.hasTable = true → e.ledger.holder = some j.number)
    (hready : j.isReady e = true) : LedgerTurn e j result := by
  have hheard : (e.heard j).desk.store = .table latency := by rw [heard_desk, hstore]
  have hsettled (run : BatchRun P R) :
      (e.settled j.number run).1.desk.store = .table latency := by
    rw [(settled_sameJobs e j.number run).desk, hstore]
  cases h with
  | sends sender source unanswered h =>
    refine ((h.approaches hheard).congr (heard_ledger e j)).turn ?_
    cases hstage : j.stage <;> first | rfl | (rw [hstage] at source; cases source)
  | miscounts answered wrong =>
    exact ((conclude_approaches _ _ _ _).congr (heard_ledger e j)).turn (by rw [answered.1]; rfl)
  | @answers run items answered right =>
    have htold : ((e.heard j).report j.number .success).desk.store = .table latency := hheard
    have happroaches : Approaches ((e.heard j).report j.number .success) j.number
        (((e.heard j).report j.number .success).answered j.number j.assignment run.attempt
          { outcomes := items.map .ofItem }) := answered_approaches htold _ _ _
    exact (happroaches.congr (heard_ledger e j)).turn (by rw [answered.1]; rfl)
  | idles source submission none empty => exact .apart (by rw [source]; rfl) rfl rfl
  | rejects source admission reviewed => exact .apart (by rw [source]; rfl) rfl rfl
  | writes source write =>
    exact (openWrite_approaches hstore _ _ _).turn (by rw [source]; rfl)
  | @proceeds result run source =>
    refine followWrite_turn (by rw [source]; rfl) (writeTurn_holds hstore ?_)
    intro hstep
    refine howner ?_
    rw [source, Stage.hasTable]
    split
    · contradiction
    · rfl
  | comes source occupation => exact .joins (by rw [source]; rfl) trivial rfl
  | occupies source =>
    refine .stays (by rw [source]; rfl) rfl ?_ rfl
    simpa [Job.isReady, source] using hready
  | vacates source =>
    exact .leaves (by rw [source]; rfl) rfl (Or.inr (howner (by rw [source]; rfl))) rfl
  | resumes source => exact .apart (by rw [source]; rfl) rfl rfl
  | collects source found => exact .apart (by rw [source]; rfl) rfl rfl
  | pauses source none some =>
    exact .apart (by rw [source]; rfl) rfl (settled_ledger e _ _)
  | reopens source none some =>
    exact .apart (by rw [source]; rfl) rfl (settled_ledger e _ _)
  | finishes source none last =>
    exact ((answered_approaches (hsettled _) _ _ _).congr (settled_ledger e _ _)).turn
      (by rw [source]; rfl)
  | holds hold before after =>
    refine .apart ?_ ?_ rfl
    · rcases before with ⟨_, source⟩ | ⟨_, source⟩ | ⟨_, _, source⟩ <;> (rw [source]; rfl)
    · rcases after with ⟨_, rfl⟩ | ⟨_, _, rfl⟩ | ⟨_, rfl⟩ | ⟨_, rfl⟩ <;> rfl

/-! ### Custody -/

/-- The line at the table is in order. -/
structure Custody (e : Engine P R) : Prop where
  fair : e.ledger.Fair
  nodup : e.ledger.line.Nodup
  line : ∀ n, n ∈ e.ledger.line ↔ ∃ j ∈ e.jobs, j.number = n ∧ j.stage.isAtTable = true
  owner : ∀ j ∈ e.jobs, j.stage.hasTable = true → e.ledger.holder = some j.number
  waiting : ∀ j ∈ e.jobs, j.stage.isAtTable = true → j.stage.hasTable = false → j.stage.IsWaiting

namespace LedgerTurn

variable {e : Engine P R} {j : Job P R} {result : Engine P R × Stage P R}

theorem fair (h : LedgerTurn e j result) (hfair : e.ledger.Fair) : result.1.ledger.Fair := by
  cases h with
  | apart before after same => exact same ▸ hfair
  | joins before after request => exact request ▸ Ledger.fair_request _ _
  | stays before after owner same => exact same ▸ hfair
  | @leaves table before after owner leave =>
    have hfair' : ({ e.ledger with table } : Ledger).Fair := hfair
    exact leave ▸ Ledger.fair_leave hfair' _

/-- After a turn of a job, the others in line are as they were, and the job is in line if it is at the
table. -/
theorem line (h : LedgerTurn e j result) (hfair : e.ledger.Fair) (hnodup : e.ledger.line.Nodup)
    (hself : j.number ∈ e.ledger.line ↔ j.stage.isAtTable = true) :
    result.1.ledger.line.Nodup ∧ ∀ n, n ∈ result.1.ledger.line ↔
      (n = j.number ∧ result.2.isAtTable = true) ∨ (n ≠ j.number ∧ n ∈ e.ledger.line) := by
  cases h with
  | apart before after same =>
    have hout : j.number ∉ e.ledger.line := fun hmem => by simp [hself.mp hmem] at before
    refine ⟨same ▸ hnodup, ?_⟩
    intro n
    have hne (hn : n ∈ e.ledger.line) : n ≠ j.number := fun hsame => hout (hsame ▸ hn)
    rw [same, after]
    simpa using hne
  | joins before after request =>
    have hout : j.number ∉ e.ledger.line := fun hmem => by simp [hself.mp hmem] at before
    rw [request, Ledger.line_request hfair]
    refine ⟨?_, ?_⟩
    · exact List.nodup_append.mpr ⟨hnodup, List.nodup_singleton _, by
        intro x hx y hy hsame
        exact hout (List.mem_singleton.mp hy ▸ hsame ▸ hx)⟩
    · intro n
      have hne (hn : n ∈ e.ledger.line) : n ≠ j.number := fun hsame => hout (hsame ▸ hn)
      simp only [List.mem_append, List.mem_singleton, after.isAtTable, and_true]
      tauto
  | stays before after owner same =>
    have hin : j.number ∈ e.ledger.line := hself.mpr before
    refine ⟨same ▸ hnodup, ?_⟩
    intro n
    rw [same]
    simp only [Stage.isAtTable_of_hasTable after, and_true]
    by_cases hn : n = j.number
    · simp [hn, hin]
    · simp [hn]
  | @leaves table before after owner leave =>
    have hfair' : ({ e.ledger with table } : Ledger).Fair := hfair
    have hline : result.1.ledger.line = e.ledger.line.erase j.number := by
      rw [leave, Ledger.line_leave hfair']
      rfl
    -- Whoever gets the table next has been in line before.
    rw [hline]
    refine ⟨hnodup.erase _, ?_⟩
    intro n
    rw [hnodup.mem_erase_iff, after]
    simp

theorem holder (h : LedgerTurn e j result) {n : Nat} (hne : n ≠ j.number)
    (hholder : e.ledger.holder = some n) : result.1.ledger.holder = some n := by
  cases h with
  | apart before after same => exact same ▸ hholder
  | joins before after request => exact request ▸ Ledger.holder_request hholder
  | stays before after owner same => exact same ▸ hholder
  | @leaves table before after owner leave =>
    have hholder' : ({ e.ledger with table } : Ledger).holder = some n := hholder
    exact leave ▸ Ledger.holder_leave hholder' hne

theorem owner (h : LedgerTurn e j result) (htable : result.2.hasTable = true) :
    result.1.ledger.holder = some j.number := by
  cases h with
  | apart before after same => simp [Stage.isAtTable_of_hasTable htable] at after
  | joins before after request => simp [after.not_hasTable] at htable
  | stays before after owner same => exact same ▸ owner
  | leaves before after owner leave => simp [Stage.isAtTable_of_hasTable htable] at after

theorem waiting (h : LedgerTurn e j result) (htable : result.2.isAtTable = true)
    (hnot : result.2.hasTable = false) : result.2.IsWaiting := by
  cases h with
  | apart before after same => simp [after] at htable
  | joins before after request => exact after
  | stays before after owner same => simp [after] at hnot
  | leaves before after owner leave => simp [after] at htable

theorem table (h : LedgerTurn e j result) :
    result.1.ledger.table = e.ledger.table ∨ e.ledger.holder = some j.number := by
  cases h with
  | apart before after same => exact Or.inl (by rw [same])
  | joins before after request => exact Or.inl (by rw [request, Ledger.table_request])
  | stays before after owner same => exact Or.inl (by rw [same])
  | leaves before after owner leave =>
    refine owner.imp ?_ id
    rintro rfl
    rw [leave, Ledger.table_leave]

end LedgerTurn

namespace Custody

variable {e : Engine P R}

theorem mem_line (h : e.Custody) (hwf : e.WellFormed) {j : Job P R} (hj : j ∈ e.jobs) :
    j.number ∈ e.ledger.line ↔ j.stage.isAtTable = true := by
  rw [h.line]
  constructor
  · rintro ⟨k, hk, hnumber, htable⟩
    rwa [← hwf.job_unique hk hj hnumber]
  · exact fun htable => ⟨j, hj, rfl, htable⟩

theorem ledgerTurn (h : e.Custody) (hwf : e.WellFormed) (hsuited : e.Suited)
    (hstore : ∃ latency, e.desk.store = .table latency) {j : Job P R} (hj : j ∈ e.jobs)
    (hready : j.isReady e = true) : LedgerTurn e j (e.jobTurn j) := by
  obtain ⟨latency, hstore⟩ := hstore
  exact (hsuited.route hwf hj hready).ledgerTurn hstore (h.owner j hj) hready

theorem serveJob (h : e.Custody) (hwf : e.WellFormed) {j : Job P R} (hj : j ∈ e.jobs)
    (hready : j.isReady e = true) (hturn : LedgerTurn e j (e.jobTurn j)) :
    (e.serveJob j).Custody := by
  obtain ⟨hnodup, hline⟩ := hturn.line h.fair h.nodup (h.mem_line hwf hj)
  refine ⟨hturn.fair h.fair, hnodup, ?_, ?_, ?_⟩
  · -- The job that is served may have come or gone, and all others are where they were.
    intro n
    refine (hline n).trans ?_
    rw [h.line]
    constructor
    · rintro (⟨rfl, htable⟩ | ⟨hne, k, hk, rfl, htable⟩)
      · exact ⟨_, self_mem_serveJob hwf hj hready, rfl, htable⟩
      · exact ⟨k, other_mem_serveJob hwf hj hready hk hne, rfl, htable⟩
    · rintro ⟨k, hk, rfl, htable⟩
      rcases mem_serveJob hwf hj hready hk with rfl | ⟨hk, hne⟩
      · exact Or.inl ⟨rfl, htable⟩
      · exact Or.inr ⟨hne, k, hk, rfl, htable⟩
  · intro k hk htable
    rcases mem_serveJob hwf hj hready hk with rfl | ⟨hk, hne⟩
    · exact hturn.owner htable
    · exact hturn.holder hne (h.owner k hk htable)
  · intro k hk htable hnot
    rcases mem_serveJob hwf hj hready hk with rfl | ⟨hk, _⟩
    · exact hturn.waiting htable hnot
    · exact h.waiting k hk htable hnot

theorem congr {e' : Engine P R} (h : e.Custody) (hledger : e'.ledger = e.ledger)
    (hjobs : e'.jobs = e.jobs) : e'.Custody := by
  refine ⟨?_, ?_, ?_, ?_, ?_⟩
  · rw [hledger]
    exact h.fair
  · rw [hledger]
    exact h.nodup
  · rw [hledger, hjobs]
    exact h.line
  · rw [hledger, hjobs]
    exact h.owner
  · rw [hjobs]
    exact h.waiting

end Custody

/-- **Every move keeps the table in custody.** -/
theorem Move.custody {e e' : Engine P R} (hmove : Move e e') (hwf : e.WellFormed)
    (hsuited : e.Suited) (hstore : ∃ latency, e.desk.store = .table latency) (h : e.Custody) :
    e'.Custody := by
  cases hmove with
  | @worker w member ready =>
    exact h.congr (workerTurn_house e w).ledger (workerTurn_house e w).jobs
  | @job j member ready =>
    exact h.serveJob hwf member ready (h.ledgerTurn hwf hsuited hstore member ready)
  | tick quiet due => exact h.congr rfl rfl

/-- Where a free table is written to by jobs that come for it in order. -/
structure Guarded (e : Engine P R) : Prop where
  wellFormed : e.WellFormed
  suited : e.Suited
  store : ∃ latency, e.desk.store = .table latency
  custody : e.Custody

theorem Move.guarded {e e' : Engine P R} (hmove : Move e e') (h : e.Guarded) : e'.Guarded := by
  refine ⟨hmove.wellFormed h.wellFormed, hmove.suited h.wellFormed h.suited, ?_,
    hmove.custody h.wellFormed h.suited h.store h.custody⟩
  rw [hmove.desk h.wellFormed]
  exact h.store

theorem Guarded.left {e : Engine P R} (h : e.Guarded) {j : Job P R} (hj : j ∈ e.jobs) {time : Nat}
    {ending : Ending R} (hending : j.ending? = some (time, ending)) : j.number ∉ e.ledger.line := by
  rw [h.custody.mem_line h.wellFormed hj, ending?_eq_some hending]
  exact Bool.false_ne_true

theorem Course.guarded {e e' : Engine P R} (hcourse : Course e e') (h : e.Guarded) : e'.Guarded :=
  hcourse.keeps Move.guarded h

theorem AtRest.guarded {e : Engine P R} (hrest : e.AtRest)
    (hstore : ∃ latency, e.desk.store = .table latency) (hfree : e.ledger.Free)
    (assignments : List (Nat × Assignment P)) : (e.addJobs assignments).unturned.Guarded := by
  have hledger : (e.addJobs assignments).unturned.ledger = e.ledger := by
    rw [addJobs_eq]
    rfl
  have hnone : ∀ j ∈ (e.addJobs assignments).unturned.jobs, j.stage.isAtTable = false := by
    intro j hj
    obtain ⟨due, hstage⟩ := hrest.arriving hj
    rw [hstage]
    rfl
  refine ⟨hrest.wellFormed assignments, hrest.suited assignments, ?_, ?_, ?_, ?_, ?_, ?_⟩
  · rw [addJobs_eq]
    exact hstore
  · rw [hledger]
    exact fun _ => hfree.2
  · rw [hledger, hfree.line]
    exact List.nodup_nil
  · intro n
    rw [hledger, hfree.line]
    constructor
    · intro hn
      cases hn
    · rintro ⟨j, hj, _, htable⟩
      rw [hnone j hj] at htable
      cases htable
  · intro j hj htable
    have hnot := hnone j hj
    rw [Stage.isAtTable_of_hasTable htable] at hnot
    cases hnot
  · intro j hj htable
    rw [hnone j hj] at htable
    cases htable

theorem Custody.free {e : Engine P R} (h : e.Custody)
    (hnone : ∀ j ∈ e.jobs, j.stage.isAtTable = false) : e.ledger.Free := by
  refine Ledger.free_of_line (List.eq_nil_iff_forall_not_mem.mpr ?_)
  intro n hn
  obtain ⟨j, hj, _, htable⟩ := (h.line n).mp hn
  rw [hnone j hj] at htable
  cases htable

end Engine

end OrderAdmission
