import OrderAdmission.Engine.Execution

/-!
# Submission of a batch

A batch of orders goes downstream in one bulk call. A call that fails in a way that calls for
another attempt is made again after a growing delay, as long as retries are left, the circuit is
closed and the time budget allows it. When the bulk calls are given up, a small batch goes order by
order, if that is allowed. An admission first checks the batch, the breaker and the resources, and
afterwards writes the statuses of the orders that were taken.
-/
namespace OrderAdmission

variable {P R : Type}

/-- The largest count of attempts. -/
def maxAttempts : Nat := UInt32.size - 1

/-- The latest time that a clock can be set to, in milliseconds. -/
def clockEnd : Nat := 0x8000000000000000 * 1000

def SubmissionPhase.ofResult (r : BatchResult R) : SubmissionPhase :=
  if r.allSucceeded then .success
  else if 0 < r.successCount then .partialSuccess
  else .failure

/-- The failure of a bulk call that answered with the wrong number of items. -/
def DownstreamFailure.miscounted (items orders : Nat) : DownstreamFailure :=
  { status := none, kind := .other
    message := s!"bulk call returned {items} results for {orders} orders" }

def Outcome.ofItem : Except DownstreamFailure R → Outcome R
  | .ok answer => .success answer
  | .error f => .failure f.text

/-- Whether a job holds a place among the requests in progress. -/
def Assignment.isAdmission : Assignment P → Bool
  | .process _ => true
  | _ => false

def Assignment.orders : Assignment P → List P
  | .submit orders => orders
  | .process orders => orders
  | _ => []

namespace Engine

def finish (e : Engine P R) (ending : Ending R) : Engine P R × Stage P R :=
  (e, .finished e.now ending)

/-- Ends a job that has been admitted: its place among the requests in progress is free again. -/
def conclude (e : Engine P R) (a : Assignment P) (ending : Ending R) : Engine P R × Stage P R :=
  if a.isAdmission then { e with requests := e.requests.leave }.finish ending
  else e.finish ending

/-- What becomes of a job when its status write has come this far. -/
def followWrite (a : Assignment P) (result : Option (BatchResult R)) :
    Engine P R × WriteTurn → Engine P R × Stage P R
  | (e, .goesOn run) => (e, .writing result run)
  | (e, .ends (.error crash)) => e.conclude a (.error crash)
  | (e, .ends (.ok (.error error))) => e.conclude a (.ok (.error error))
  | (e, .ends (.ok (.ok rows))) =>
    match result with
    | some r => e.conclude a (.ok (.ok (.batch r)))
    | none => e.conclude a (.ok (.ok (.written rows)))

/-- The update that follows from a placed order. An unknown status counts as submitted. -/
def updateFor (e : Engine P R) (order : P) (answer : R) : StatusUpdate × StatusCache :=
  let p := e.desk.place order answer
  let (status, cache) := e.cache.read p.status
  ({ orderId := p.orderId, expectedVersion := p.version, status := status.getD .submitted
     extra := some p.extra }, cache)

def updatesFor (e : Engine P R) (orders : List P) :
    List (Nat × R) → Except Crash (List StatusUpdate × StatusCache)
  | [] => .ok ([], e.cache)
  | (i, answer) :: rest =>
    match orders[i]? with
    | none => .error .overflow
    | some order =>
      let (u, cache) := e.updateFor order answer
      match { e with cache }.updatesFor orders rest with
      | .error crash => .error crash
      | .ok (us, cache) => .ok (u :: us, cache)

def placeOrders (e : Engine P R) (job : Nat) (a : Assignment P) (result : BatchResult R) :
    Engine P R × Stage P R :=
  match e.updatesFor a.orders result.successes with
  | .error crash => e.conclude a (.error crash)
  | .ok (updates, cache) => followWrite a (some result) ({ e with cache }.openWrite job updates)

/-- What becomes of a job when its orders have been answered. -/
def answered (e : Engine P R) (job : Nat) (a : Assignment P) (attempts : Nat)
    (result : BatchResult R) : Engine P R × Stage P R :=
  match a with
  | .process _ => e.placeOrders job a result
  | .submit _ =>
    e.conclude a (.ok (.ok (.submission
      { phase := .ofResult result, result, bulkAttempts := attempts })))
  | _ => e.conclude a (.ok (.ok (.batch result)))

def followBatch (job : Nat) (a : Assignment P) (attempts : Nat) :
    Engine P R × BatchTurn P R → Engine P R × Stage P R
  | (e, .goesOn stage) => (e, stage)
  | (e, .ends result) => e.answered job a attempts result

def followStart (job : Nat) (a : Assignment P) (attempts : Nat) :
    Engine P R × BatchStart P R → Engine P R × Stage P R
  | (e, .goesOn stage) => (e, stage)
  | (e, .ends result) => e.answered job a attempts result
  | (e, .refused error) => e.conclude a (.ok (.error error))
  | (e, .crashes crash) => e.conclude a (.error crash)

def sendSingly (e : Engine P R) (job : Nat) (a : Assignment P) (attempts : Nat) :
    Engine P R × Stage P R :=
  followStart job a attempts (e.startBatch job attempts (BatchTask.ofPayloads a.orders))

/-- Makes a bulk call; `attempt` counts from one. -/
def callBulk (e : Engine P R) (job : Nat) (a : Assignment P) (attempt deadline : Nat) :
    Engine P R × Stage P R :=
  if maxAttempts < attempt then e.conclude a (.error .overflow)
  else
    ({ e with bulkCalls := e.bulkCalls + 1 }.note (.bulkCalled job a.orders),
      .calling
        { attempt, deadline
          call := (e.desk.bulk e.bulkCalls a.orders).since e.now
          cutoff := min (e.now + e.desk.fallback.callTimeout) deadline })

def startSubmission (e : Engine P R) (job : Nat) (a : Assignment P) : Engine P R × Stage P R :=
  if !e.desk.fallback.bulkEnabled then e.sendSingly job a 0
  else
    match e.desk.fallback.retry.totalBudget e.desk.fallback.callTimeout with
    | .error crash => e.conclude a (.error crash)
    | .ok budget =>
      if e.now + budget < clockEnd then e.callBulk job a 1 (e.now + budget)
      else e.conclude a (.error .overflow)

/-- Gives up the bulk call after a failure that calls for fallback. -/
def fallBack (e : Engine P R) (job : Nat) (a : Assignment P) (attempts : Nat)
    (failure : DownstreamFailure) : Engine P R × Stage P R :=
  if !e.desk.fallback.enabled ∨ e.desk.fallback.maxIndividualOrders < a.orders.length then
    e.conclude a (.ok (.error (.downstream failure true)))
  else e.sendSingly job a attempts

def bulkFailed (e : Engine P R) (job : Nat) (a : Assignment P) (run : BulkRun R)
    (failure : DownstreamFailure) : Engine P R × Stage P R :=
  let policy := e.desk.fallback.retry
  if !policy.triggers failure then e.conclude a (.ok (.error (.downstream failure false)))
  else
    let e := e.report job .failure
    let retry := run.attempt - 1
    if policy.maxRetries ≤ retry then e.fallBack job a run.attempt failure
    else
      match e.breaker.allow e.wall with
      | .error crash => e.conclude a (.error crash)
      | .ok (false, breaker) => (e.setBreaker breaker).fallBack job a run.attempt failure
      | .ok (true, breaker) =>
        let e := e.setBreaker breaker
        let due := e.now + policy.delay retry
        if run.deadline ≤ due then e.fallBack job a run.attempt failure
        else (e, .backingOff run.attempt run.deadline due)

/-- After a bulk call that came back with items for all orders. -/
def bulkAnswered (e : Engine P R) (job : Nat) (a : Assignment P) (run : BulkRun R)
    (items : List (Except DownstreamFailure R)) : Engine P R × Stage P R :=
  (e.report job .success).answered job a run.attempt { outcomes := items.map .ofItem }

def bulkTurn (e : Engine P R) (job : Nat) (a : Assignment P) (run : BulkRun R) :
    Engine P R × Stage P R :=
  match run.call.reply? e.now with
  | some (some (.ok items)) =>
    let e := e.note (.bulkEnded job (some (.ok items)))
    if items.length = a.orders.length then e.bulkAnswered job a run items
    else e.bulkFailed job a run (.miscounted items.length a.orders.length)
  | some (some (.error failure)) =>
    (e.note (.bulkEnded job (some (.error failure)))).bulkFailed job a run failure
  | some none => e.conclude a (.error .collaborator)
  | none =>
    (e.note (.bulkEnded job none)).bulkFailed job a run
      (.timedOut s!"bulk call exceeded {e.desk.fallback.callTimeout}ms")

/-- Admits a batch: it is checked first, then counts as a request in progress, and then the breaker
and the overload detector are asked. -/
def startAdmission (e : Engine P R) (job : Nat) (a : Assignment P) : Engine P R × Stage P R :=
  if a.orders.isEmpty then e.finish (.ok (.ok (.batch .empty)))
  else
    match e.desk.review a.orders with
    | .error error => e.finish (.ok (.error error))
    | .ok () =>
      let e := { e with requests := e.requests.enter }
      match e.breaker.admitBulk e.wall with
      | .error crash => e.conclude a (.error crash)
      | .ok (.error error, breaker) => (e.setBreaker breaker).conclude a (.ok (.error error))
      | .ok (.ok (), breaker) =>
        let e := e.setBreaker breaker
        let (state, detector) := e.detector.check e.probes.snapshot
        let e := { e with detector }
        if state.overloaded then e.conclude a (.ok (.error (.overloaded state.retryAfter)))
        else e.startSubmission job a

end Engine

end OrderAdmission
