import OrderAdmission.Engine.Basic
import OrderAdmission.Wire

/-!
# JSON forms of reports

The JSON forms of what an admission reports: errors, readings, the state of the circuit, stored
rows and the ends of jobs. A binary number is written as its bits in base sixteen, so that nothing
is lost.
-/
namespace OrderAdmission

namespace Json

def ofNat (n : Nat) : Json := .int n

def ofBits (x : Float) : Json := .str (Number.hexText x)

/-- A report that consists of an error's name. -/
def failed (name : String) : Json := .obj [("error", .str name)]

/-- A report of a success. -/
def succeeded (j : Json) : Json := .obj [("ok", j)]

def ofNats (ns : List Nat) : Json := .arr (ns.map ofNat)

end Json

open Json (ofNat ofBits failed succeeded)

def GateError.kind : GateError → String
  | overloaded _ => "Overloaded"
  | circuitOpen _ _ => "CircuitOpen"
  | permitTimeout _ => "PermitTimeout"
  | downstream _ _ => "Downstream"
  | versionConflict _ _ => "OptimisticLockConflict"
  | rowCount _ _ => "PersistenceInvariant"
  | database _ => "Database"
  | migration _ => "Migration"
  | configuration _ => "Config"
  | invalid _ => "Validation"
  | timeout _ => "Timeout"
  | io _ => "Io"
  | internal _ => "Internal"
  | other _ => "Other"

def GateError.toJson (e : GateError) : Json :=
  .obj [("error", .str e.kind), ("message", .str e.message), ("retryable", .bool e.retryable),
    ("retry_after_secs", .ofOption ofNat e.retryAfter)]

/-- The report of something that may end in an error. -/
def reportJson {α : Type} (value : α → Json) : Except GateError α → Json
  | .ok a => succeeded (value a)
  | .error e => e.toJson

def checkJson : Except GateError Unit → Json := reportJson fun _ => .null

def Order.checkReport (o : Order) : Json := checkJson (o.check.mapError .invalid)

def Receipt.toJson {R : Type} (value : R → Json) : Receipt R → Json
  | permit _ => .null
  | batch r => r.toJson value
  | submission o => o.toJson value
  | written rows => ofNat rows
  | vacated => .null

/-- The report of a job's end, with the report of a crash; a job that has not ended has none. -/
def endingJson {R : Type} (crash : Json) (value : R → Json) : Option (Ending R) → Json
  | some (.ok ending) => reportJson (Receipt.toJson value) ending
  | some (.error _) => crash
  | none => .null

/-- What a probe says, or why it says nothing. -/
def probedJson {α : Type} (value : α → Json) : Except ProbeError α → Json
  | .ok a => value a
  | .error e => .str e.text

def ProbeError.kind : ProbeError → String
  | noReading => "NoReading"
  | unavailable _ => "Unavailable"

def probeReport : Reading → Json
  | .ok x => succeeded (ofBits x)
  | .error e => .obj [("error", .str e.kind), ("message", .str e.text)]

def Gauge.toJson (g : Gauge) : Json :=
  .obj [("get", .ofOption ofBits g.reading), ("utilization", probeReport g.utilization)]

def RequestTracker.toJson (t : RequestTracker) : Json :=
  .obj [("active", ofNat t.active), ("capacity", ofNat t.capacity),
    ("utilization", probeReport t.utilization)]

def Limiter.members (l : Limiter) : List (String × Json) :=
  [("max", ofNat l.capacity), ("available", ofNat l.free), ("in_flight", ofNat l.inFlight),
    ("utilization", probedJson ofBits l.utilization)]

def PoolHealth.members (p : PoolHealth) : List (String × Json) :=
  [("utilization", probedJson ofBits p.utilization), ("waiting", probedJson ofNat p.waiting)]

def Breaker.status (b : Breaker) : Json :=
  .obj [("phase", .str b.phase.name), ("failure_count", ofNat b.failures.toNat),
    ("last_failure_at_millis", .ofOption .int b.lastFailure?), ("total_trips", ofNat b.trips.toNat)]

/-- A snapshot that was taken at this time. -/
def Snapshot.toJson (s : Snapshot) (wall : Int) : Json :=
  .obj ((ResourceKind.all.map fun kind => (kind.name, .ofOption ofBits (s kind))) ++
    [("max", ofBits s.peak), ("taken_at_ms", .int wall)])

def OverloadState.toJson (s : OverloadState) : Json :=
  .obj [("overloaded", .bool s.overloaded), ("retry_after_secs", ofNat s.retryAfter)]

/-- The row of an order, `null` where it has none. -/
def Table.rowJson (t : Table) (id : Int) : Json :=
  match t.get? id with
  | some row =>
    .arr [.int id, .str row.status.name, .int row.version, .ofOption (·) row.extra]
  | none => .arr [.int id, .null]

def StoreCall.toJson : StoreCall → Json
  | begin => .str "begin"
  | apply orders => .obj [("apply", .arr (orders.map .int))]
  | commit => .str "commit"
  | rollback => .str "rollback"

end OrderAdmission
