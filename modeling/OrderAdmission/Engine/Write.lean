import OrderAdmission.Engine.Basic

/-!
# Turns of a status write

All updates are written in one transaction, in statements of limited size. A row that did not
change exactly once ends the write, and the transaction is taken back. The whole transaction has
a time limit; when it is over, whatever is under way is dropped and nothing is written. On the
table of the engine a transaction first waits until it holds the table.
-/
namespace OrderAdmission

variable {P R : Type}

namespace WriteRun

def hasCome (w : WriteRun) (job : Nat) (ledger : Ledger) (now : Nat) : Bool :=
  match w.step with
  | .queued => ledger.holder == some job
  | .opening call => call.arrived now
  | .stating due => decide (due ≤ now)
  | .asking call => call.arrived now
  | .committing call => call.arrived now
  | .rollingBack _ call => call.arrived now

def isReady (w : WriteRun) (job : Nat) (ledger : Ledger) (now : Nat) : Bool :=
  w.hasCome job ledger now || decide (w.limit ≤ now)

def due (w : WriteRun) : Nat :=
  match w.step with
  | .queued => w.limit
  | .opening call => earlier call.due? w.limit
  | .stating due => min due w.limit
  | .asking call => earlier call.due? w.limit
  | .committing call => earlier call.due? w.limit
  | .rollingBack _ call => earlier call.due? w.limit

end WriteRun

inductive WriteTurn where
  | goesOn (run : WriteRun)
  | ends (ending : Except Crash (Except GateError Nat))

namespace Engine

def statementIds (updates : List StatusUpdate) : List Int := updates.map (·.orderId)

def openWrite (e : Engine P R) (job : Nat) (updates : List StatusUpdate) :
    Engine P R × WriteTurn :=
  if updates.isEmpty then (e, .ends (.ok (.ok 0)))
  else
    match StatusUpdate.firstRepeated updates [] with
    | some id => (e, .ends (.ok (.error (.invalid (.repeatedUpdate id)))))
    | none =>
      let run (step : WriteStep) : WriteRun :=
        { total := updates.length
          limit := e.now + e.desk.persistence.transactionTimeout
          remaining := chunksOf e.desk.persistence.chunkSize updates
          made := 0, staged := [], step }
      let noted := e.note (.stored job .begin)
      match e.desk.store with
      | .table _ => ({ noted with ledger := e.ledger.request job }, .goesOn (run .queued))
      | .outside script => (noted, .goesOn (run (.opening (script.opening.since e.now))))

/-- Ends a status write; the table goes to the next in the queue. -/
def endWrite (e : Engine P R) (job : Nat) (ending : Except Crash (Except GateError Nat)) :
    Engine P R × WriteTurn :=
  match e.desk.store with
  | .table _ => ({ e with ledger := e.ledger.leave job }, .ends ending)
  | .outside _ => (e, .ends ending)

/-- Makes the next statement, or ends the transaction after the last one. -/
def nextStatement (e : Engine P R) (job : Nat) (w : WriteRun) : Engine P R × WriteTurn :=
  match w.remaining, e.desk.store with
  | updates :: _, .table latency =>
    (e.note (.stored job (.apply (statementIds updates))),
      .goesOn { w with step := .stating (e.now + latency) })
  | updates :: _, .outside script =>
    (e.note (.stored job (.apply (statementIds updates))),
      .goesOn { w with step := .asking ((script.statement w.made updates).since e.now) })
  | [], .table _ =>
    let e := e.note (.stored job .commit)
    { e with ledger := { e.ledger with table := e.ledger.table.commit w.staged } }.endWrite job
      (.ok (.ok w.total))
  | [], .outside script =>
    (e.note (.stored job .commit),
      .goesOn { w with step := .committing (script.commit.since e.now) })

def rollBack (e : Engine P R) (job : Nat) (w : WriteRun) (error : GateError) :
    Engine P R × WriteTurn :=
  let e := e.note (.stored job .rollback)
  match e.desk.store with
  | .table _ => e.endWrite job (.ok (.error error))
  | .outside script =>
    (e, .goesOn { w with step := .rollingBack error (script.rollback.since e.now) })

/-- After the answer to a statement: every row must have changed once. -/
def afterStatement (e : Engine P R) (job : Nat) (w : WriteRun) (counts : List Nat) :
    Engine P R × WriteTurn :=
  match w.remaining with
  | [] => e.nextStatement job w
  | updates :: rest =>
    match checkStatement updates counts with
    | .error error => e.rollBack job w error
    | .ok () => e.nextStatement job { w with remaining := rest, made := w.made + 1 }

/-- Cuts a status write off: its time is over. -/
def cutWrite (e : Engine P R) (job : Nat) : Engine P R × WriteTurn :=
  e.endWrite job (.ok (.error (.writeTimeout e.desk.persistence.transactionTimeout)))

def writeTurn (e : Engine P R) (job : Nat) (w : WriteRun) : Engine P R × WriteTurn :=
  match w.step with
  | .queued =>
    if e.ledger.holder = some job then e.nextStatement job w else e.cutWrite job
  | .opening call =>
    match call.reply? e.now with
    | some (some (.ok ())) => e.nextStatement job w
    | some (some (.error error)) => e.endWrite job (.ok (.error error))
    | some none => e.endWrite job (.error .collaborator)
    | none => e.cutWrite job
  | .stating due =>
    if due ≤ e.now then
      match e.ledger.table.stageAll w.staged (w.remaining.headD []) with
      | (_, .error crash) => e.endWrite job (.error crash)
      | (staged, .ok counts) => e.afterStatement job { w with staged } counts
    else e.cutWrite job
  | .asking call =>
    match call.reply? e.now with
    | some (some (.ok counts)) => e.afterStatement job w counts
    | some (some (.error error)) => e.rollBack job w error
    | some none => e.endWrite job (.error .collaborator)
    | none => e.cutWrite job
  | .committing call =>
    match call.reply? e.now with
    | some (some (.ok ())) => e.endWrite job (.ok (.ok w.total))
    | some (some (.error error)) => e.endWrite job (.ok (.error error))
    | some none => e.endWrite job (.error .collaborator)
    | none => e.cutWrite job
  | .rollingBack error call =>
    match call.reply? e.now with
    | some (some _) => e.endWrite job (.ok (.error error))
    | some none => e.endWrite job (.error .collaborator)
    | none => e.cutWrite job

end Engine

end OrderAdmission
