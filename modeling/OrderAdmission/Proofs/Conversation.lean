import OrderAdmission.Proofs.Custody
import OrderAdmission.Proofs.Progress
import OrderAdmission.Proofs.Retrying
import OrderAdmission.Proofs.Tallies
import OrderAdmission.Proofs.Transcripts

/-!
# Transactions keep to the protocol

What a job says to the store is in the journal, among what everybody else does. `Running` compares a
status write that is under way with the transcript of what it has said: what it waits for is what its last
call has brought about. A turn makes the call that follows from the answer (`writeTurn_said`), and nobody else
touches what the transaction goes by: a table is left to who has it.

The main result is `transaction_keeps_protocol`: **whatever the store does and whatever else goes on, the
calls of a write are a transcript of the answers that have come in time, and tell how it has ended**.
-/
namespace OrderAdmission

variable {P R : Type}

/-! ### A write and its transcript -/

section Writes

variable {desk : Desk P R} {t : Table} {updates : List StatusUpdate} {c : Transcript} {run : WriteRun}

/-- The transcript agrees with what the write keeps of its statements. -/
structure Keeps (desk : Desk P R) (t : Table) (updates : List StatusUpdate) (c : Transcript)
    (run : WriteRun) : Prop where
  total : run.total = updates.length
  limit : run.limit = c.began + desk.persistence.transactionTimeout
  remaining : run.remaining = (chunksOf desk.persistence.chunkSize updates).drop run.made
  passed : c.Passed (desk.script t updates) run.limit (chunksOf desk.persistence.chunkSize updates) run.made
  staged : ∀ latency, desk.store = .table latency → ∃ counts,
    t.stageAll [] (updates.take (run.made * max 1 desk.persistence.chunkSize)) = (run.staged, .ok counts)

/-- The answer to the last statement is awaited. -/
structure AwaitsAnswer (desk : Desk P R) (t : Table) (updates : List StatusUpdate) (c : Transcript)
    (run : WriteRun) (piece : List StatusUpdate) (call : Conduct (Except GateError (List Nat))) : Prop where
  closing : c.closing = none
  length : c.statements.length = run.made + 1
  statement : ∃ time, c.statements[run.made]? = some (time, piece) ∧
    call = ((desk.script t updates).statement run.made piece).since time
  remaining : ∃ rest, run.remaining = piece :: rest

/-- What the write waits for is what its last call has brought about. -/
def Awaits (desk : Desk P R) (t : Table) (updates : List StatusUpdate) (c : Transcript)
    (run : WriteRun) : WriteStep → Prop
  | .queued => (∃ latency, desk.store = .table latency) ∧ run.made = 0 ∧ run.staged = [] ∧
      c.statements = [] ∧ c.closing = none
  | .opening call => (∃ script, desk.store = .outside script) ∧ run.made = 0 ∧
      c.statements = [] ∧ c.closing = none ∧ call = (desk.script t updates).opening.since c.began
  | .stating due => (∃ latency, desk.store = .table latency) ∧
      ∃ piece, AwaitsAnswer desk t updates c run piece (answerAt due (t.stageAll run.staged piece).2)
  | .asking call => (∃ script, desk.store = .outside script) ∧
      ∃ piece, AwaitsAnswer desk t updates c run piece call
  | .committing call => (∃ script, desk.store = .outside script) ∧
      ∃ time, c.closing = some (time, .commit) ∧ c.statements.length = run.made ∧
        run.made = (chunksOf desk.persistence.chunkSize updates).length ∧
        call = (desk.script t updates).commit.since time
  | .rollingBack error call => (∃ script, desk.store = .outside script) ∧
      ∃ time piece answer, c.closing = some (time, .rollback) ∧ c.statements.length = run.made + 1 ∧
        c.Hears (desk.script t updates) run.limit run.made piece answer ∧
        objection piece answer = some error ∧ call = (desk.script t updates).rollback.since time

/-- A write in progress has said what the transcript says. -/
structure Running (desk : Desk P R) (t : Table) (updates : List StatusUpdate) (c : Transcript)
    (run : WriteRun) : Prop extends Keeps desk t updates c run where
  step : Awaits desk t updates c run run.step

/-- The transcript of a write that has ended in this way. -/
abbrev Ends (desk : Desk P R) (t : Table) (updates : List StatusUpdate) (c : Transcript)
    (ending : Except Crash (Except GateError Nat)) : Prop :=
  c.Concludes (desk.script t updates) desk.persistence.chunkSize desk.persistence.transactionTimeout
    updates ending

theorem AwaitsAnswer.hears {piece : List StatusUpdate} {call : Conduct (Except GateError (List Nat))}
    (h : AwaitsAnswer desk t updates c run piece call) {answer : Except GateError (List Nat)}
    (hreply : call.reply? run.limit = some (some answer)) :
    c.Hears (desk.script t updates) run.limit run.made piece answer := by
  obtain ⟨time, hstatement, rfl⟩ := h.statement
  exact ⟨time, hstatement, hreply⟩

theorem AwaitsAnswer.silent {piece : List StatusUpdate} {call : Conduct (Except GateError (List Nat))}
    (h : AwaitsAnswer desk t updates c run piece call)
    (hreply : ∀ answer, call.reply? run.limit ≠ some (some answer)) (piece' : List StatusUpdate)
    (answer : Except GateError (List Nat)) :
    ¬ c.Hears (desk.script t updates) run.limit run.made piece' answer := by
  obtain ⟨time, hstatement, rfl⟩ := h.statement
  rintro ⟨time', hstatement', hreply'⟩
  obtain ⟨rfl, rfl⟩ := Prod.mk.inj (Option.some.inj (hstatement.symm.trans hstatement'))
  exact hreply answer hreply'

/-- After the answer that there ought to be, the write keeps one statement more. -/
theorem Keeps.pass (h : Keeps desk t updates c run) {piece : List StatusUpdate}
    {rest : List (List StatusUpdate)} {staged : Table} {counts : List Nat}
    (hheard : c.Hears (desk.script t updates) run.limit run.made piece (allOnce piece))
    (hremaining : run.remaining = piece :: rest)
    (hstaged : ∀ latency, desk.store = .table latency →
      t.stageAll run.staged piece = (staged, .ok counts)) :
    Keeps desk t updates c { run with staged, remaining := rest, made := run.made + 1 } := by
  refine ⟨h.total, h.limit, ?_, h.passed.pass hheard, ?_⟩
  · have htail : (chunksOf desk.persistence.chunkSize updates).drop (run.made + 1) = run.remaining.tail := by
      rw [h.remaining, List.tail_drop]
    rw [htail, hremaining]
    rfl
  · intro latency hstore
    obtain ⟨before, hbefore⟩ := h.staged latency hstore
    obtain ⟨time, hstatement, -⟩ := hheard
    have hchunk := h.passed.chunk hstatement
    rw [getElem?_chunksOf] at hchunk
    split at hchunk
    · have hpiece : updates.take ((run.made + 1) * max 1 desk.persistence.chunkSize) =
          updates.take (run.made * max 1 desk.persistence.chunkSize) ++ piece := by
        rw [Nat.succ_mul, List.take_add, ← Option.some.inj hchunk]
        rfl
      refine ⟨before ++ counts, ?_⟩
      rw [hpiece, Table.stageAll_append hbefore, hstaged latency hstore]
      rfl
    · cases hchunk

theorem Running.stands (h : Running desk t updates c run) :
    c.Stands (desk.script t updates) run.limit (chunksOf desk.persistence.chunkSize updates) run.made := by
  have hstep := h.step
  cases hrun : run.step with
  | queued =>
    rw [hrun] at hstep
    obtain ⟨-, hmade, -, hnone, hclosing⟩ := hstep
    exact .idle (by rw [hnone, hmade]; rfl) hclosing
  | opening call =>
    rw [hrun] at hstep
    obtain ⟨-, hmade, hnone, hclosing, -⟩ := hstep
    exact .idle (by rw [hnone, hmade]; rfl) hclosing
  | stating due =>
    rw [hrun] at hstep
    obtain ⟨-, piece, hasks⟩ := hstep
    exact .asked hasks.length hasks.closing
  | asking call =>
    rw [hrun] at hstep
    obtain ⟨-, piece, hasks⟩ := hstep
    exact .asked hasks.length hasks.closing
  | committing call =>
    rw [hrun] at hstep
    obtain ⟨-, time, hclosing, hlength, hall, -⟩ := hstep
    exact .committed hlength hall hclosing
  | rollingBack error call =>
    rw [hrun] at hstep
    obtain ⟨-, time, piece, answer, hclosing, hlength, hheard, herror, -⟩ := hstep
    exact .takenBack hlength hheard (ne_allOnce_of_objection herror) hclosing

theorem Running.rebase {t' : Table} (h : Running desk t updates c run)
    (hsame : ∀ latency, desk.store = .table latency → run.step ≠ .queued → t' = t) :
    Running desk t' updates c run := by
  cases hstore : desk.store with
  | outside script =>
    -- A store outside does not go by the table, which holds no statement of this transaction.
    have hscript : desk.script t' updates = desk.script t updates := by simp only [Desk.script, hstore]
    refine ⟨⟨h.total, h.limit, h.remaining, hscript ▸ h.passed, fun latency htable => ?_⟩, ?_⟩
    · cases hstore.symm.trans htable
    · have hstep := h.step
      cases hrun : run.step with
      | queued | stating due =>
        rw [hrun] at hstep
        obtain ⟨⟨latency, htable⟩, -⟩ := hstep
        cases hstore.symm.trans htable
      | asking call =>
        rw [hrun] at hstep
        obtain ⟨houtside, piece, hasks⟩ := hstep
        exact ⟨houtside, piece, hasks.closing, hasks.length, hscript ▸ hasks.statement, hasks.remaining⟩
      | opening call | committing call | rollingBack error call =>
        rw [hrun, Awaits, ← hscript] at hstep
        exact hstep
  | table latency =>
    by_cases hqueued : run.step = .queued
    · -- Nothing has been stated or staged, so that the transaction can begin on any table.
      have hstep := h.step
      rw [hqueued] at hstep
      obtain ⟨htable, hmade, hstaged, hnone, hclosing⟩ := hstep
      have hpassed := h.passed
      refine ⟨⟨h.total, h.limit, h.remaining, ⟨hpassed.pieces, hpassed.inTime, ?_, ?_⟩, ?_⟩, ?_⟩
      · exact fun hsome => absurd hnone hsome
      · rw [hmade]
        exact fun n hn => absurd hn (Nat.not_lt_zero n)
      · intro _ _
        rw [hmade, hstaged, Nat.zero_mul, List.take_zero]
        exact ⟨[], rfl⟩
      · rw [hqueued]
        exact ⟨htable, hmade, hstaged, hnone, hclosing⟩
    · rw [hsame latency hstore hqueued]
      exact h

end Writes

namespace Engine

/-! ### What the journal says -/

/-- The calls of a job to the store among these entries. -/
def storeCalls (job : Nat) (entries : List (Entry P R)) : List (Nat × StoreCall) :=
  entries.filterMap fun x =>
    match x.event with
    | .stored k call => if k = job then some (x.time, call) else none
    | _ => none

theorem storeCalls_append (job : Nat) (first second : List (Entry P R)) :
    storeCalls job (first ++ second) = storeCalls job first ++ storeCalls job second :=
  List.filterMap_append

/-- These are the calls of a job to the store since the start. -/
def Said (start e : Engine P R) (job : Nat) (calls : List (Nat × StoreCall)) : Prop :=
  ∃ added, e.journal = added ++ start.journal ∧ storeCalls job added.reverse = calls

section Said

variable {start e e' : Engine P R} {job : Nat} {calls : List (Nat × StoreCall)}

theorem Said.nothing (e : Engine P R) (job : Nat) : Said e e job [] := ⟨[], rfl, rfl⟩

theorem Said.same (h : Said start e job calls) (hjournal : e'.journal = e.journal) :
    Said start e' job calls := by
  obtain ⟨added, hadded, hcalls⟩ := h
  exact ⟨added, hjournal.trans hadded, hcalls⟩

theorem Said.note (h : Said start e job calls) (call : StoreCall) :
    Said start (e.note (.stored job call)) job (calls ++ [(e.now, call)]) := by
  obtain ⟨added, hadded, hcalls⟩ := h
  refine ⟨⟨e.now, .stored job call⟩ :: added, ?_, ?_⟩
  · rw [List.cons_append, ← hadded]
    rfl
  · rw [List.reverse_cons, storeCalls_append, hcalls]
    simp [storeCalls]

theorem Said.aside (h : Said start e job calls) (hadds : Adds (fun event => event.job ≠ job) e e') :
    Said start e' job calls := by
  obtain ⟨added, hadded, hcalls⟩ := h
  obtain ⟨more, hmore, hothers⟩ := hadds
  refine ⟨more ++ added, by rw [hmore, hadded, List.append_assoc], ?_⟩
  have hnone : storeCalls job more.reverse = [] := by
    rw [storeCalls, List.filterMap_eq_nil_iff]
    intro x hx
    have hother := hothers x (List.mem_reverse.mp hx)
    split
    · rename_i k call hevent
      rw [hevent] at hother
      exact if_neg hother
    · rfl
  rw [List.reverse_append, storeCalls_append, hcalls, hnone, List.append_nil]

theorem Said.since (h : Said start e job calls) :
    storeCalls job (e.since start.journal.length) = calls := by
  obtain ⟨added, hadded, hcalls⟩ := h
  rw [since_eq hadded, hcalls]

end Said

/-! ### Turns of a status write -/

section Equations

variable (e : Engine P R) (job : Nat) {w : WriteRun} {piece : List StatusUpdate}
  {rest : List (List StatusUpdate)}

theorem nextStatement_cons (hremaining : w.remaining = piece :: rest) :
    e.nextStatement job w = (e.note (.stored job (.apply (statementIds piece))),
      .goesOn { w with step := match e.desk.store with
        | .table latency => .stating (e.now + latency)
        | .outside script => .asking ((script.statement w.made piece).since e.now) }) := by
  obtain ⟨total, limit, remaining, made, staged, step⟩ := w
  obtain rfl : remaining = piece :: rest := hremaining
  cases hstore : e.desk.store <;> simp only [nextStatement, hstore]

theorem afterStatement_cons (counts : List Nat) (hremaining : w.remaining = piece :: rest) :
    e.afterStatement job w counts =
      match checkStatement piece counts with
      | .error error => e.rollBack job w error
      | .ok () => e.nextStatement job { w with remaining := rest, made := w.made + 1 } := by
  obtain ⟨total, limit, remaining, made, staged, step⟩ := w
  obtain rfl : remaining = piece :: rest := hremaining
  rfl

theorem writeTurn_stating {due : Nat} (hstep : w.step = .stating due)
    (hremaining : w.remaining = piece :: rest) :
    e.writeTurn job w =
      if due ≤ e.now then
        match e.ledger.table.stageAll w.staged piece with
        | (_, .error crash) => e.endWrite job (.error crash)
        | (staged, .ok counts) => e.afterStatement job { w with staged } counts
      else e.cutWrite job := by
  obtain ⟨total, limit, remaining, made, staged, step⟩ := w
  obtain rfl : remaining = piece :: rest := hremaining
  obtain rfl : step = .stating due := hstep
  rfl

end Equations

/-- After a turn of a status write, there is a transcript of what it has said. -/
def TurnSaid (start e : Engine P R) (job : Nat) (updates : List StatusUpdate)
    (result : Engine P R × WriteTurn) : Prop :=
  ∃ c, Said start result.1 job c.calls ∧
    match result.2 with
    | .goesOn run => result.1.now ≤ run.limit ∧ result.1.ledger.table = e.ledger.table ∧
        Running e.desk e.ledger.table updates c run
    | .ends ending => Ends e.desk e.ledger.table updates c ending

/-- A job is in its turn with a write that has said what the transcript says. -/
structure OnTurn (start e : Engine P R) (job : Nat) (updates : List StatusUpdate) (c : Transcript)
    (run : WriteRun) : Prop where
  inTime : e.now ≤ run.limit
  said : Said start e job c.calls
  keeps : Keeps e.desk e.ledger.table updates c run

section Turns

variable {start e : Engine P R} {job : Nat} {updates : List StatusUpdate} {c : Transcript} {run : WriteRun}
  {piece : List StatusUpdate} {call : Conduct (Except GateError (List Nat))}
  {ending : Except Crash (Except GateError Nat)}

theorem endWrite_said (e' : Engine P R) (hsaid : Said start e' job c.calls)
    (hends : Ends e.desk e.ledger.table updates c ending) :
    TurnSaid start e job updates (e'.endWrite job ending) := by
  refine ⟨c, hsaid.same ?_, ?_⟩
  · unfold endWrite
    split <;> rfl
  · rw [endWrite_turn]
    exact hends

namespace OnTurn

/-! #### Calls -/

/-- Another statement is made. -/
theorem state (h : OnTurn start e job updates c run) (hlength : c.statements.length = run.made)
    (hclosing : c.closing = none)
    (hopened : ((e.desk.script e.ledger.table updates).opening.since c.began).reply? run.limit =
      some (some (.ok ())))
    {rest : List (List StatusUpdate)} (hremaining : run.remaining = piece :: rest) :
    TurnSaid start e job updates (e.nextStatement job run) := by
  have hnext : (chunksOf e.desk.persistence.chunkSize updates)[c.statements.length]? = some piece := by
    have hhead : run.remaining[0]? = some piece := by rw [hremaining]; rfl
    rw [h.keeps.remaining, List.getElem?_drop, Nat.add_zero] at hhead
    rw [hlength, hhead]
  have hsaid := h.said.note (.apply (statementIds piece))
  rw [← Transcript.calls_state hclosing] at hsaid
  have hpassed := h.keeps.passed.state hclosing hopened hnext h.inTime
  have hmade : (c.state e.now piece).statements[run.made]? = some (e.now, piece) := by
    simp [Transcript.state, ← hlength]
  have hgrown : (c.state e.now piece).statements.length = run.made + 1 := by
    simp [Transcript.state, hlength]
  have hkeeps (step : WriteStep) :
      Keeps e.desk e.ledger.table updates (c.state e.now piece) { run with step } :=
    ⟨h.keeps.total, h.keeps.limit, h.keeps.remaining, hpassed, h.keeps.staged⟩
  rw [nextStatement_cons e job hremaining]
  cases hstore : e.desk.store with
  | table latency =>
    refine ⟨c.state e.now piece, hsaid, h.inTime, rfl, hkeeps _, ⟨latency, hstore⟩, piece, hclosing,
      hgrown, ⟨e.now, hmade, ?_⟩, rest, hremaining⟩
    obtain ⟨counts, hcounts⟩ := h.keeps.staged latency hstore
    simp only [Desk.script, hstore, Table.script, answerAt_since, hcounts]
  | outside script =>
    refine ⟨c.state e.now piece, hsaid, h.inTime, rfl, hkeeps _, ⟨script, hstore⟩, piece, hclosing,
      hgrown, ⟨e.now, hmade, ?_⟩, rest, hremaining⟩
    simp only [Desk.script, hstore]

theorem commit (h : OnTurn start e job updates c run) (hlength : c.statements.length = run.made)
    (hclosing : c.closing = none) (hremaining : run.remaining = []) :
    TurnSaid start e job updates (e.nextStatement job run) := by
  have hall : run.made = (chunksOf e.desk.persistence.chunkSize updates).length := by
    have hdone := h.keeps.remaining
    rw [hremaining, eq_comm, List.drop_eq_nil_iff] at hdone
    have hle := h.keeps.passed.pieces.length_le
    rw [List.length_map] at hle
    omega
  have hsaid := h.said.note Closing.commit.call
  rw [← Transcript.calls_close hclosing e.now .commit] at hsaid
  have hpassed := h.keeps.passed.close hclosing h.inTime .commit
  cases hstore : e.desk.store with
  | table latency =>
    rw [nextStatement_commit e job run latency hremaining hstore]
    refine endWrite_said (e.commitStaged job run.staged) (hsaid.same rfl) ?_
    have hreply := (e.desk.script_prompt e.ledger.table updates hstore h.inTime).2.1
    rw [h.keeps.limit] at hpassed hreply
    refine hpassed.concludes_committed hlength hall rfl fun rows => ?_
    have hrows : (.ok (.ok run.total) : Except Crash (Except GateError Nat)) = .ok (.ok rows) ↔
        rows = updates.length := by
      rw [h.keeps.total, Except.ok.injEq, Except.ok.injEq, eq_comm]
    exact hrows.trans (and_iff_left hreply).symm
  | outside script =>
    simp only [nextStatement, hremaining, hstore]
    refine ⟨c.close e.now .commit, hsaid, h.inTime, rfl,
      ⟨h.keeps.total, h.keeps.limit, hremaining ▸ h.keeps.remaining, hpassed, h.keeps.staged⟩, ?_⟩
    refine ⟨⟨script, hstore⟩, e.now, rfl, hlength, hall, ?_⟩
    simp only [Desk.script, hstore]

/-- All statements so far have been answered as they should: another is made, or the transaction is
committed. -/
theorem nextStatement (h : OnTurn start e job updates c run) (hlength : c.statements.length = run.made)
    (hclosing : c.closing = none)
    (hopened : ((e.desk.script e.ledger.table updates).opening.since c.began).reply? run.limit =
      some (some (.ok ()))) :
    TurnSaid start e job updates (e.nextStatement job run) := by
  cases hremaining : run.remaining with
  | nil => exact h.commit hlength hclosing hremaining
  | cons piece rest => exact h.state hlength hclosing hopened hremaining

/-- The transaction is taken back after an answer that there ought not to be. -/
theorem rollBack (h : OnTurn start e job updates c run)
    (hasks : AwaitsAnswer e.desk e.ledger.table updates c run piece call)
    {answer : Except GateError (List Nat)} (hreply : call.reply? run.limit = some (some answer))
    {error : GateError} (herror : objection piece answer = some error) (staged : Table) :
    TurnSaid start e job updates (e.rollBack job { run with staged } error) := by
  have hheard := hasks.hears hreply
  have hsaid := h.said.note Closing.rollback.call
  rw [← Transcript.calls_close hasks.closing e.now .rollback] at hsaid
  have hpassed := h.keeps.passed.close hasks.closing h.inTime .rollback
  cases hstore : e.desk.store with
  | table latency =>
    have hstore' : (e.note (.stored job .rollback)).desk.store = .table latency := hstore
    simp only [Engine.rollBack, hstore']
    refine endWrite_said (e.note (.stored job .rollback)) hsaid ?_
    have hback := (e.desk.script_prompt e.ledger.table updates hstore h.inTime).2.2
    rw [h.keeps.limit] at hpassed hheard hback
    refine hpassed.concludes_takenBack hasks.length hheard herror rfl ?_
    exact congrArg (Transcript.blame error e.desk.persistence.transactionTimeout) hback.symm
  | outside script =>
    have hstore' : (e.note (.stored job .rollback)).desk.store = .outside script := hstore
    simp only [Engine.rollBack, hstore']
    refine ⟨c.close e.now .rollback, hsaid, h.inTime, rfl,
      ⟨h.keeps.total, h.keeps.limit, h.keeps.remaining, hpassed, fun latency htable => ?_⟩, ?_⟩
    · cases hstore.symm.trans htable
    refine ⟨⟨script, hstore⟩, e.now, piece, answer, rfl, hasks.length, hheard, herror, ?_⟩
    simp only [Desk.script, hstore]
    rfl

/-- After the counts of a statement, the write goes on or takes the transaction back. -/
theorem afterStatement (h : OnTurn start e job updates c run)
    (hasks : AwaitsAnswer e.desk e.ledger.table updates c run piece call) {counts : List Nat}
    (hreply : call.reply? run.limit = some (some (.ok counts))) {staged : Table}
    (hstaged : ∀ latency, e.desk.store = .table latency →
      e.ledger.table.stageAll run.staged piece = (staged, .ok counts)) :
    TurnSaid start e job updates (e.afterStatement job { run with staged } counts) := by
  obtain ⟨rest, hremaining⟩ := hasks.remaining
  rw [afterStatement_cons e job (w := { run with staged }) counts hremaining]
  cases hcheck : checkStatement piece counts with
  | error error =>
    exact h.rollBack hasks hreply (by simp only [objection, hcheck]) staged
  | ok =>
    have hright : Except.ok counts = allOnce piece :=
      objection_eq_none.mp (by simp only [objection, hcheck])
    have hsome : c.statements ≠ [] := by
      intro hnone
      have hlength := hasks.length
      rw [hnone] at hlength
      cases hlength
    have hpassed := h.keeps.pass (hright ▸ hasks.hears hreply) hremaining hstaged
    have hnext : OnTurn start e job updates c
        { run with staged, remaining := rest, made := run.made + 1 } := ⟨h.inTime, h.said, hpassed⟩
    exact hnext.nextStatement hasks.length hasks.closing (h.keeps.passed.opened hsome)

/-! #### Nothing more is said -/

theorem unopened (h : OnTurn start e job updates c run) (hmade : run.made = 0)
    (hnone : c.statements = []) (hclosing : c.closing = none) (hfailed : ∀ rows, ending ≠ .ok (.ok rows)) :
    TurnSaid start e job updates (e.endWrite job ending) := by
  have hpassed := h.keeps.passed
  rw [h.keeps.limit] at hpassed
  refine endWrite_said e h.said (hpassed.concludes_open (.idle ?_ hclosing) hclosing ?_ hfailed)
  · rw [hnone, hmade]
    rfl
  · rintro piece answer hheard
    have hlt := hheard.lt
    rw [hnone] at hlt
    cases hlt

/-- The last statement has not been answered in time. -/
theorem unanswered (h : OnTurn start e job updates c run)
    (hasks : AwaitsAnswer e.desk e.ledger.table updates c run piece call)
    (hreply : ∀ answer, call.reply? run.limit ≠ some (some answer))
    (hfailed : ∀ rows, ending ≠ .ok (.ok rows)) : TurnSaid start e job updates (e.endWrite job ending) := by
  have hpassed := h.keeps.passed
  have hsilent := hasks.silent hreply
  rw [h.keeps.limit] at hpassed hsilent
  exact endWrite_said e h.said
    (hpassed.concludes_open (.asked hasks.length hasks.closing) hasks.closing hsilent hfailed)

/-! #### Answers -/

theorem queued (h : OnTurn start e job updates c run) (hstep : run.step = .queued)
    (hawaits : Awaits e.desk e.ledger.table updates c run .queued) :
    TurnSaid start e job updates (e.writeTurn job run) := by
  obtain ⟨⟨latency, hstore⟩, hmade, -, hnone, hclosing⟩ := hawaits
  have hbegan : c.began ≤ run.limit := h.keeps.limit ▸ Nat.le_add_right ..
  simp only [writeTurn, hstep]
  split
  · exact h.nextStatement (by rw [hnone, hmade]; rfl) hclosing
      (e.desk.script_prompt e.ledger.table updates hstore hbegan).1
  · exact h.unopened hmade hnone hclosing (by simp)

theorem opening (h : OnTurn start e job updates c run) {call : Conduct (Except GateError Unit)}
    (hstep : run.step = .opening call)
    (hready : (call.arrived e.now || decide (run.limit ≤ e.now)) = true)
    (hawaits : Awaits e.desk e.ledger.table updates c run (.opening call)) :
    TurnSaid start e job updates (e.writeTurn job run) := by
  obtain ⟨-, hmade, hnone, hclosing, rfl⟩ := hawaits
  have hlimit := Conduct.reply?_limit h.inTime hready
  simp only [writeTurn, hstep]
  split
  · rename_i hreply
    exact h.nextStatement (by rw [hnone, hmade]; rfl) hclosing (hlimit.trans hreply)
  · exact h.unopened hmade hnone hclosing (by simp)
  · exact h.unopened hmade hnone hclosing (by simp)
  · exact h.unopened hmade hnone hclosing (by simp)

/-- The table answers a statement when its time has come, if the transaction is not cut off before. -/
theorem stating (h : OnTurn start e job updates c run) {due : Nat} (hstep : run.step = .stating due)
    (hready : (decide (due ≤ e.now) || decide (run.limit ≤ e.now)) = true)
    (hawaits : Awaits e.desk e.ledger.table updates c run (.stating due)) :
    TurnSaid start e job updates (e.writeTurn job run) := by
  obtain ⟨-, piece, hasks⟩ := hawaits
  obtain ⟨rest, hremaining⟩ := hasks.remaining
  have harrived := answerAt_arrived due (e.ledger.table.stageAll run.staged piece).2 e.now
  rw [← harrived] at hready
  have hlimit := Conduct.reply?_limit h.inTime hready
  rw [writeTurn_stating e job hstep hremaining]
  split
  · rename_i hdue
    split
    · rename_i staged crash hstage
      refine h.unanswered hasks (fun answer hreply => ?_) (by simp)
      rw [hlimit, hstage] at hreply
      simp only [answerAt, Conduct.reply?, if_pos hdue] at hreply
      cases hreply
    · rename_i staged counts hstage
      refine h.afterStatement hasks ?_ fun _ _ => hstage
      rw [hlimit, hstage]
      exact if_pos hdue
  · rename_i hdue
    refine h.unanswered hasks (fun answer hreply => ?_) (by simp)
    rw [Conduct.arrived_eq_isSome, ← hlimit, hreply, decide_eq_false hdue] at harrived
    cases harrived

theorem asking (h : OnTurn start e job updates c run) (hstep : run.step = .asking call)
    (hready : (call.arrived e.now || decide (run.limit ≤ e.now)) = true)
    (hawaits : Awaits e.desk e.ledger.table updates c run (.asking call)) :
    TurnSaid start e job updates (e.writeTurn job run) := by
  obtain ⟨⟨script, hstore⟩, piece, hasks⟩ := hawaits
  have hlimit := Conduct.reply?_limit h.inTime hready
  simp only [writeTurn, hstep]
  split
  · rename_i counts hreply
    have hoff : ∀ latency, e.desk.store = .table latency →
        e.ledger.table.stageAll run.staged piece = (run.staged, .ok counts) := by
      intro latency htable
      cases hstore.symm.trans htable
    exact h.afterStatement hasks (hlimit.trans hreply) hoff
  · rename_i error hreply
    exact h.rollBack hasks (hlimit.trans hreply) rfl run.staged
  · rename_i hreply
    exact h.unanswered hasks (by simp [hlimit, hreply]) (by simp)
  · rename_i hreply
    exact h.unanswered hasks (by simp [hlimit, hreply]) (by simp)

theorem committing (h : OnTurn start e job updates c run) {call : Conduct (Except GateError Unit)}
    (hstep : run.step = .committing call)
    (hready : (call.arrived e.now || decide (run.limit ≤ e.now)) = true)
    (hawaits : Awaits e.desk e.ledger.table updates c run (.committing call)) :
    TurnSaid start e job updates (e.writeTurn job run) := by
  obtain ⟨-, time, hclosing, hlength, hall, rfl⟩ := hawaits
  have hlimit := Conduct.reply?_limit h.inTime hready
  have hpassed := h.keeps.passed
  rw [h.keeps.limit] at hpassed hlimit
  have hends {ending : Except Crash (Except GateError Nat)}
      (hending : ∀ rows, ending = .ok (.ok rows) ↔ rows = updates.length ∧
        ((e.desk.script e.ledger.table updates).commit.since time).reply? e.now = some (some (.ok ()))) :
      TurnSaid start e job updates (e.endWrite job ending) :=
    endWrite_said e h.said (hpassed.concludes_committed hlength hall hclosing (hlimit ▸ hending))
  simp only [writeTurn, hstep]
  split
  · rename_i hreply
    exact hends (by simp [hreply, h.keeps.total, eq_comm])
  · rename_i error hreply
    exact hends (by simp [hreply])
  · rename_i hreply
    exact hends (by simp [hreply])
  · rename_i hreply
    exact hends (by simp [hreply])

theorem rollingBack (h : OnTurn start e job updates c run) {error : GateError}
    {call : Conduct (Except GateError Unit)} (hstep : run.step = .rollingBack error call)
    (hready : (call.arrived e.now || decide (run.limit ≤ e.now)) = true)
    (hawaits : Awaits e.desk e.ledger.table updates c run (.rollingBack error call)) :
    TurnSaid start e job updates (e.writeTurn job run) := by
  obtain ⟨-, time, piece, answer, hclosing, hlength, hheard, herror, rfl⟩ := hawaits
  have hlimit := Conduct.reply?_limit h.inTime hready
  have hpassed := h.keeps.passed
  rw [h.keeps.limit] at hpassed hlimit hheard
  have hends {ending : Except Crash (Except GateError Nat)} (hending : ending =
      Transcript.blame error e.desk.persistence.transactionTimeout
        (((e.desk.script e.ledger.table updates).rollback.since time).reply? e.now)) :
      TurnSaid start e job updates (e.endWrite job ending) :=
    endWrite_said e h.said (hpassed.concludes_takenBack hlength hheard herror hclosing (hlimit ▸ hending))
  simp only [writeTurn, hstep]
  split
  · rename_i reply hreply
    exact hends (by rw [hreply]; rfl)
  · rename_i hreply
    exact hends (by rw [hreply]; rfl)
  · rename_i hreply
    exact hends (by rw [hreply]; rfl)

end OnTurn

/-- **A turn of a status write makes the call that there is to make**, as the answer to the last one
says. -/
theorem writeTurn_said (hnow : e.now ≤ run.limit) (hready : run.isReady job e.ledger e.now = true)
    (hsaid : Said start e job c.calls) (hrunning : Running e.desk e.ledger.table updates c run) :
    TurnSaid start e job updates (e.writeTurn job run) := by
  have hturn : OnTurn start e job updates c run := ⟨hnow, hsaid, hrunning.toKeeps⟩
  have hawaits := hrunning.step
  unfold WriteRun.isReady WriteRun.hasCome at hready
  cases hstep : run.step with
  | queued => exact hturn.queued hstep (hstep ▸ hawaits)
  | opening call =>
    rw [hstep] at hready hawaits
    exact hturn.opening hstep hready hawaits
  | stating due =>
    rw [hstep] at hready hawaits
    exact hturn.stating hstep hready hawaits
  | asking call =>
    rw [hstep] at hready hawaits
    exact hturn.asking hstep hready hawaits
  | committing call =>
    rw [hstep] at hready hawaits
    exact hturn.committing hstep hready hawaits
  | rollingBack error call =>
    rw [hstep] at hready hawaits
    exact hturn.rollingBack hstep hready hawaits

theorem openWrite_said (hsaid : Said start e job []) (hsome : updates ≠ [])
    (hdistinct : (updates.map (·.orderId)).Nodup) :
    TurnSaid start e job updates (e.openWrite job updates) := by
  have hnow : e.now ≤ e.now + e.desk.persistence.transactionTimeout := Nat.le_add_right ..
  have hnone : StatusUpdate.firstRepeated updates [] = none :=
    firstRepeated_eq_none hdistinct fun _ _ => List.not_mem_nil
  have hempty : updates.isEmpty = false := by simpa using hsome
  have hpassed := Transcript.Passed.begin (e.desk.script e.ledger.table updates) hnow
    (chunksOf e.desk.persistence.chunkSize updates)
  have hkeeps (step : WriteStep) : Keeps e.desk e.ledger.table updates { began := e.now }
      { total := updates.length, limit := e.now + e.desk.persistence.transactionTimeout
        remaining := chunksOf e.desk.persistence.chunkSize updates, made := 0, staged := [], step } := by
    refine ⟨rfl, rfl, rfl, hpassed, fun latency _ => ⟨[], ?_⟩⟩
    rw [Nat.zero_mul, List.take_zero]
    rfl
  simp only [openWrite, hempty, Bool.false_eq_true, ↓reduceIte, hnone]
  cases hstore : e.desk.store with
  | table latency =>
    refine ⟨{ began := e.now }, (hsaid.note .begin).same rfl, hnow, ?_, hkeeps .queued, ?_⟩
    · exact Ledger.table_request e.ledger job
    · exact ⟨⟨latency, hstore⟩, rfl, rfl, rfl, rfl⟩
  | outside script =>
    refine ⟨{ began := e.now }, hsaid.note .begin, hnow, rfl, hkeeps _, ?_⟩
    refine ⟨⟨script, hstore⟩, rfl, rfl, rfl, ?_⟩
    simp only [Desk.script, hstore]

end Turns

/-! ### A job that writes -/

/-- How a job ends whose status write has ended in this way. -/
def endingOf : Except Crash (Except GateError Nat) → Ending R
  | .error crash => .error crash
  | .ok (.error error) => .ok (.error error)
  | .ok (.ok rows) => .ok (.ok (.written rows))

theorem followWrite_ends (e : Engine P R) (a : Assignment P) (result : Except Crash (Except GateError Nat)) :
    followWrite a none (e, .ends result) = e.conclude a (endingOf result) := by
  rcases result with crash | error | rows <;> rfl

/-- What a job that is to write these updates has said when it stands here. -/
def SpokenAt (start e : Engine P R) (job : Nat) (updates : List StatusUpdate) : Stage P R → Prop
  | .arriving _ => Said start e job []
  | .writing none run => updates ≠ [] ∧ e.now ≤ run.limit ∧
      ∃ c, Said start e job c.calls ∧ Running start.desk e.ledger.table updates c run
  | .finished _ ending =>
      (updates = [] ∧ Said start e job [] ∧ ending = .ok (.ok (.written 0))) ∨
        updates ≠ [] ∧ ∃ t c result, Said start e job c.calls ∧ Ends start.desk t updates c result ∧
          ending = endingOf result
  | _ => False

section Jobs

variable {start e e' : Engine P R} {job : Nat} {updates : List StatusUpdate}

theorem SpokenAt.not_isJoining {stage : Stage P R} (h : SpokenAt start e job updates stage) :
    stage.isJoining = false := by
  cases stage <;> first | rfl | exact h.elim

theorem followWrite_said {a : Assignment P} {result : Engine P R × WriteTurn}
    (hdesk : e.desk = start.desk) (hsome : updates ≠ []) (h : TurnSaid start e job updates result) :
    SpokenAt start (followWrite a none result).1 job updates (followWrite a none result).2 := by
  obtain ⟨e', turn⟩ := result
  obtain ⟨c, hsaid, hturn⟩ := h
  rw [hdesk] at hturn
  cases turn with
  | goesOn run =>
    obtain ⟨hnow, htable, hrunning⟩ := hturn
    rw [← htable] at hrunning
    exact ⟨hsome, hnow, c, hsaid, hrunning⟩
  | ends ending =>
    rw [followWrite_ends, conclude_eq]
    exact .inr ⟨hsome, e.ledger.table, c, ending, hsaid, hturn, rfl⟩

theorem jobTurn_said (hdesk : e.desk = start.desk) (hdistinct : (updates.map (·.orderId)).Nodup)
    {j : Job P R} (hassignment : j.assignment = .write updates) (hready : j.isReady e = true)
    (h : SpokenAt start e j.number updates j.stage) :
    SpokenAt start (e.jobTurn j).1 j.number updates (e.jobTurn j).2 := by
  obtain ⟨number, a, stage, turn⟩ := j
  obtain rfl : a = .write updates := hassignment
  cases stage with
  | arriving due =>
    simp only [jobTurn, startJob]
    by_cases hsome : updates = []
    · subst hsome
      exact .inl ⟨rfl, h, rfl⟩
    · exact followWrite_said hdesk hsome (openWrite_said h hsome hdistinct)
  | writing result run =>
    cases result with
    | some r => exact h.elim
    | none =>
      obtain ⟨hsome, hnow, c, hsaid, hrunning⟩ := h
      rw [← hdesk] at hrunning
      exact followWrite_said hdesk hsome (writeTurn_said hnow hready hsaid hrunning)
  | finished time ending => exact h
  | _ => exact h.elim

/-- What happens elsewhere, while the table is left to a transaction that has it. -/
theorem SpokenAt.aside {stage : Stage P R} (h : SpokenAt start e job updates stage)
    (hadds : Adds (fun event => event.job ≠ job) e e') (hnow : e'.now = e.now)
    (htable : ∀ latency, start.desk.store = .table latency → stage.hasTable = true →
      e'.ledger.table = e.ledger.table) : SpokenAt start e' job updates stage := by
  cases stage with
  | arriving due => exact Said.aside h hadds
  | writing result run =>
    cases result with
    | some r => exact h.elim
    | none =>
      obtain ⟨hsome, hlimit, c, hsaid, hrunning⟩ := h
      refine ⟨hsome, hnow ▸ hlimit, c, hsaid.aside hadds, hrunning.rebase fun latency hstore hstep => ?_⟩
      refine htable latency hstore ?_
      rw [Stage.hasTable]
      split
      · contradiction
      · rfl
  | finished time ending =>
    refine h.imp ?_ ?_
    · rintro ⟨hnone, hsaid, hending⟩
      exact ⟨hnone, hsaid.aside hadds, hending⟩
    · rintro ⟨hsome, t, c, result, hsaid, hends, hending⟩
      exact ⟨hsome, t, c, result, hsaid.aside hadds, hends, hending⟩
  | _ => exact h.elim

end Jobs

theorem due_le_limit (run : WriteRun) : run.due ≤ run.limit := by
  have hearlier (due : Option Nat) : earlier due run.limit ≤ run.limit := by
    cases due with
    | none => exact Nat.le_refl _
    | some time => exact Nat.min_le_right ..
  unfold WriteRun.due
  split
  · exact Nat.le_refl _
  · exact hearlier _
  · exact Nat.min_le_right ..
  · exact hearlier _
  · exact hearlier _
  · exact hearlier _

/-- What a job that is to write these updates has said since the start, whatever else goes on. -/
structure Speaking (start : Engine P R) (job : Nat) (updates : List StatusUpdate) (e : Engine P R) :
    Prop where
  wellFormed : e.WellFormed
  suited : e.Suited
  desk : e.desk = start.desk
  guarded : ∀ latency, start.desk.store = .table latency → e.Guarded
  said : ∀ j ∈ e.jobs, j.number = job →
    j.assignment = .write updates ∧ SpokenAt start e job updates j.stage

section Moves

variable {start e e' : Engine P R} {job : Nat} {updates : List StatusUpdate}

/-- **Every move keeps to what has been said**, and the job itself says what there is to say. -/
theorem Move.speaking (hmove : Move e e') (hdistinct : (updates.map (·.orderId)).Nodup)
    (h : Speaking start job updates e) : Speaking start job updates e' := by
  have hwf := h.wellFormed
  refine ⟨hmove.wellFormed hwf, hmove.suited hwf h.suited, (hmove.desk hwf).trans h.desk,
    fun latency hstore => hmove.guarded (h.guarded latency hstore), ?_⟩
  cases hmove with
  | @worker w member ready =>
    have hhouse := workerTurn_house e w
    have hjobs : (e.serveWorker w).jobs = e.jobs := hhouse.jobs
    intro j hj hnumber
    rw [hjobs] at hj
    obtain ⟨hassignment, hspoken⟩ := h.said j hj hnumber
    have hother : w.job ≠ job := hnumber ▸ hwf.no_workers hj hspoken.not_isJoining w member
    have hledger : (e.serveWorker w).ledger = e.ledger := hhouse.ledger
    exact ⟨hassignment, hspoken.aside (serveWorker_elsewhere hwf member hother).journal hhouse.now
      fun _ _ _ => by rw [hledger]⟩
  | @job k member ready =>
    intro j hj hnumber
    rcases mem_serveJob hwf member ready hj with rfl | ⟨hold, hne⟩
    · obtain ⟨hassignment, hspoken⟩ := h.said k member hnumber
      obtain rfl : k.number = job := hnumber
      exact ⟨hassignment, jobTurn_said h.desk hdistinct hassignment ready hspoken⟩
    · obtain ⟨hassignment, hspoken⟩ := h.said j hold hnumber
      have hother : k.number ≠ job := fun hsame => hne (hnumber.trans hsame.symm)
      have hnow : (e.serveJob k).now = e.now := (jobTurn_turn e k (hwf.sound k member) ready).sameJobs.now
      refine ⟨hassignment, hspoken.aside
        (serveJob_elsewhere hwf h.suited member ready hother).journal hnow fun latency hstore hhas => ?_⟩
      -- Only the holder changes the table, and that is this job.
      have hguarded := h.guarded latency hstore
      have hturn := hguarded.custody.ledgerTurn hwf h.suited hguarded.store member ready
      rcases hturn.table with hsame | howner
      · exact hsame
      · have hholder := hguarded.custody.owner j hold hhas
        exact absurd (Option.some.inj (hholder.symm.trans howner)) hne
  | @tick time quiet due =>
    intro j hj hnumber
    obtain ⟨hassignment, hspoken⟩ := h.said j hj hnumber
    refine ⟨hassignment, ?_⟩
    have htime := (firstTurn_spec due).2.2 j hj
    obtain ⟨number, a, stage, turn⟩ := j
    cases stage with
    | arriving due => exact hspoken
    | writing result run =>
      cases result with
      | some r => exact hspoken.elim
      | none =>
        obtain ⟨hsome, -, c, hsaid, hrunning⟩ := hspoken
        exact ⟨hsome, Nat.le_trans (htime _ rfl) (due_le_limit run), c, hsaid, hrunning⟩
    | finished time ending => exact hspoken
    | _ => exact hspoken.elim

theorem AtRest.speaking (hrest : e.AtRest)
    (hfree : ∀ latency, e.desk.store = .table latency → e.ledger.Free)
    {assignments : List (Nat × Assignment P)} {i wait : Nat}
    (hassigned : assignments[i]? = some (wait, .write updates)) :
    Speaking (e.addJobs assignments).unturned (e.nextNumber + i) updates
      (e.addJobs assignments).unturned := by
  refine ⟨hrest.wellFormed assignments, hrest.suited assignments, rfl, fun latency hstore => ?_, ?_⟩
  · rw [addJobs_eq] at hstore
    exact hrest.guarded ⟨latency, hstore⟩ (hfree latency hstore) assignments
  · intro j hj hnumber
    obtain ⟨k, wait', -, hk, hnumber'⟩ := hrest.exists_assignment .refl hj
    obtain rfl : k = i := by omega
    obtain ⟨due, hstage⟩ := hrest.arriving hj
    refine ⟨(congrArg Prod.snd (Option.some.inj (hassigned.symm.trans hk))).symm, ?_⟩
    rw [hstage]
    exact Said.nothing _ _

end Moves

/-! ### The protocol -/

/-- What a job that is to write these updates may have said to the store, and how it may have ended. -/
inductive Talked (desk : Desk P R) (updates : List StatusUpdate) :
    List (Nat × StoreCall) → Option (Ending R) → Prop where
  /-- It has not begun. -/
  | silent : Talked desk updates [] none
  /-- There is nothing to write, and nothing is said. -/
  | nothing (empty : updates = []) : Talked desk updates [] (some (.ok (.ok (.written 0))))
  | underway {t : Table} {c : Transcript} (nonempty : updates ≠ [])
      (converses : c.Converses (desk.script t updates) desk.persistence.chunkSize
        (c.began + desk.persistence.transactionTimeout) updates) : Talked desk updates c.calls none
  | ended {t : Table} {c : Transcript} {result : Except Crash (Except GateError Nat)}
      (nonempty : updates ≠ [])
      (concludes : c.Concludes (desk.script t updates) desk.persistence.chunkSize
        desk.persistence.transactionTimeout updates result) :
      Talked desk updates c.calls (some (endingOf result))

theorem Speaking.talked {start e : Engine P R} {updates : List StatusUpdate} {j : Job P R}
    (h : Speaking start j.number updates e) (hj : j ∈ e.jobs) :
    Talked start.desk updates (storeCalls j.number (e.since start.journal.length))
      (j.ending?.map (·.2)) := by
  obtain ⟨-, hspoken⟩ := h.said j hj rfl
  obtain ⟨number, a, stage, turn⟩ := j
  cases stage with
  | arriving due =>
    rw [Said.since hspoken]
    exact .silent
  | writing result run =>
    cases result with
    | some r => exact hspoken.elim
    | none =>
      obtain ⟨hsome, -, c, hsaid, hrunning⟩ := hspoken
      have hconverses := hrunning.passed.converses hrunning.stands
      rw [hrunning.limit] at hconverses
      rw [hsaid.since]
      exact .underway hsome hconverses
  | finished time ending =>
    rcases hspoken with ⟨hnone, hsaid, rfl⟩ | ⟨hsome, t, c, result, hsaid, hends, rfl⟩
    · rw [hsaid.since]
      exact .nothing hnone
    · rw [hsaid.since]
      exact .ended hsome hends
  | _ => exact hspoken.elim

/-- **A transaction keeps to the protocol, whatever the store does.** Let a write of updates of different
orders be one of several assignments, to a store outside that answers as it likes, or to a table that is free
at first. At every instant of every course, the calls that the write has made are a transcript of
the answers it has had in time, and when it has ended they say how. What is performed brings it to an end.
Without updates, no call is made. -/
theorem transaction_keeps_protocol {e : Engine P R} (hrest : e.AtRest)
    (hfree : ∀ latency, e.desk.store = .table latency → e.ledger.Free)
    {assignments : List (Nat × Assignment P)} {i wait : Nat} {updates : List StatusUpdate}
    (hassigned : assignments[i]? = some (wait, .write updates))
    (hdistinct : (updates.map (·.orderId)).Nodup) :
    (∀ e', Course (e.addJobs assignments).unturned e' → ∃ j ∈ e'.jobs,
      j.number = e.nextNumber + i ∧ j.assignment = .write updates ∧
      Talked e.desk updates (storeCalls j.number (e'.since e.journal.length)) (j.ending?.map (·.2))) ∧
    ∃ time ending, (e.perform assignments).2[i]? = some (some (time, ending)) ∧
      Talked e.desk updates
        (storeCalls (e.nextNumber + i) ((e.perform assignments).1.since e.journal.length))
        (some ending) := by
  have hstart : (e.addJobs assignments).unturned.desk = e.desk ∧
      (e.addJobs assignments).unturned.journal = e.journal := by
    rw [addJobs_eq]
    exact ⟨rfl, rfl⟩
  have htalks {e' : Engine P R} (hcourse : Course (e.addJobs assignments).unturned e') :
      ∃ j, e'.jobs[i]? = some j ∧ j.number = e.nextNumber + i ∧ j.assignment = .write updates ∧
        Talked e.desk updates (storeCalls j.number (e'.since e.journal.length))
          (j.ending?.map (·.2)) := by
    obtain ⟨j, hj, hnumber, hassignment⟩ := hrest.exists_job hcourse hassigned
    have hspeaking := hcourse.keeps (fun hmove h => hmove.speaking hdistinct h)
      (hrest.speaking hfree hassigned)
    rw [← hnumber] at hspeaking
    have htalked := hspeaking.talked (List.mem_of_getElem? hj)
    rw [hstart.1, hstart.2] at htalked
    exact ⟨j, hj, hnumber, hassignment, htalked⟩
  constructor
  · intro e' hcourse
    obtain ⟨j, hj, hrest⟩ := htalks hcourse
    exact ⟨j, List.mem_of_getElem? hj, hrest⟩
  · obtain ⟨done, hcourse, hsettled, hwf, hdone, hendings⟩ := perform_course hrest assignments
    obtain ⟨j, hj, hnumber, hassignment, htalked⟩ := htalks hcourse
    obtain ⟨time, ending, hstage⟩ :=
      hsettled.finished hwf (List.mem_of_getElem? hj) (by rw [hassignment]; rfl)
    have hending : j.ending? = some (time, ending) := by rw [Job.ending?, hstage]
    have hsince : (e.perform assignments).1.since e.journal.length = done.since e.journal.length :=
      congrArg (·.since e.journal.length) hdone
    rw [hnumber, hending] at htalked
    refine ⟨time, ending, ?_, ?_⟩
    · rw [hendings, List.getElem?_map, hj, Option.map_some, hending]
    · rw [hsince]
      exact htalked

/-- A store that finds a row in another version at the second of three statements, and then fails to take
the transaction back: the third statement is not made, and the error is that of the second. -/
theorem transaction_with_failed_rollback :
    let update (id version : Int) : StatusUpdate :=
      { orderId := id, expectedVersion := version, status := .filled, extra := none }
    let script : StoreScript :=
      { opening := .answers 1 (.ok ())
        statement := fun n _ => .answers 2 (.ok [if n = 0 then 1 else 0])
        commit := .hangs
        rollback := .answers 4 (.error (.rowCount 9 9)) }
    let e := begun (.forStatuses { chunkSize := 1 } (.outside script)) {} {} none [] 0
    let updates := [update 1 0, update 2 7, update 3 0]
    let assignments : List (Nat × Assignment Unit) := [(5, .write updates)]
    let calls := [(5, .begin), (6, .apply [1]), (8, .apply [2]), (10, .rollback)]
    let ending := .ok (.error (.versionConflict 2 7))
    e.AtRest ∧ (∀ latency, e.desk.store = .table latency → e.ledger.Free) ∧
      assignments[0]? = some (5, .write updates) ∧ (updates.map (·.orderId)).Nodup ∧
      (e.perform assignments).2[0]? = some (some (14, ending)) ∧
      storeCalls 0 ((e.perform assignments).1.since 0) = calls ∧
      Talked e.desk updates calls (some ending) := by
  intro update script e updates assignments calls ending
  have hrest : e.AtRest := begun_atRest _ _ _ _ _ _
  have hfree : ∀ latency, e.desk.store = .table latency → e.ledger.Free := by
    intro latency hstore
    cases hstore
  have hassigned : assignments[0]? = some (5, .write updates) := rfl
  have hdistinct : (updates.map (·.orderId)).Nodup := by decide
  have herror : ((e.perform assignments).2[0]?).map errorOf = some (some (14, .versionConflict 2 7)) := by
    decide +kernel
  have hcalls : storeCalls 0 ((e.perform assignments).1.since 0) = calls := by decide +kernel
  obtain ⟨time, ending', hending, htalked⟩ :=
    (transaction_keeps_protocol hrest hfree hassigned hdistinct).2
  rw [hending] at herror
  obtain ⟨rfl, rfl⟩ := Prod.mk.inj (Option.some.inj (errorOf_eq_some.mp (Option.some.inj herror)))
  exact ⟨hrest, hfree, hassigned, hdistinct, hending, hcalls, hcalls ▸ htalked⟩

end Engine

end OrderAdmission
