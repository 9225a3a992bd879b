import OrderAdmission.Number.Binary

/-!
# Probes

A probe is a read-only view of a scarce resource.

A reading is a ratio of use, or the reason why there is none. Whoever looks at a reading treats a
missing one as healthy, so that a broken probe never stops traffic.
-/
namespace OrderAdmission

/-- Why a probe has no reading. -/
inductive ProbeError where
  | noReading
  | unavailable (reason : String)
  deriving DecidableEq, Repr, Inhabited

def ProbeError.text : ProbeError → String
  | noReading => "probe has no reading yet"
  | unavailable reason => s!"probe unavailable: {reason}"

/-- What a probe says: how much of its resource is used. -/
abbrev Reading := Except ProbeError Float

/-- What a connection pool says about itself. -/
structure PoolHealth where
  /-- The share of its connections that is checked out. -/
  utilization : Reading
  /-- The number of callers that wait for a connection. -/
  waiting : Except ProbeError Nat

/-- A pool is healthy when its use is below the critical share and nobody waits. What cannot be
read counts as healthy, and so does a pool that nobody watches. -/
def PoolHealth.isHealthy (critical : Float) : Option PoolHealth → Bool
  | none => true
  | some pool =>
    let busy := match pool.utilization with
      | .ok u => decide (critical ≤ u)
      | .error _ => false
    let queued := match pool.waiting with
      | .ok n => n != 0
      | .error _ => false
    !busy && !queued

/-- A resource that is watched for overload. -/
inductive ResourceKind where
  | threadPool
  | dbPool
  | memory
  | requestRatio
  deriving DecidableEq, Repr

namespace ResourceKind

/-- All resources, in the order in which they are read. -/
def all : List ResourceKind := [threadPool, dbPool, memory, requestRatio]

def name : ResourceKind → String
  | threadPool => "thread_pool"
  | dbPool => "db_pool"
  | memory => "memory"
  | requestRatio => "request_ratio"

end ResourceKind

/-- The probes of the watched resources; a resource may have none. -/
abbrev Probes := ResourceKind → Option Reading

/-- What can be read of each resource: a ratio in `[0, 1]`. -/
abbrev Snapshot := ResourceKind → Option Float

/-- Reads one probe. A number that is no finite number is no reading. -/
def readProbe : Option Reading → Option Float
  | some (.ok x) => if x.isFinite then some (Number.clampUnit x) else none
  | _ => none

def Probes.snapshot (p : Probes) : Snapshot := fun kind => readProbe (p kind)

/-- The highest ratio of a snapshot, zero where nothing can be read. -/
def Snapshot.peak (s : Snapshot) : Float :=
  (ResourceKind.all.filterMap s).foldl Number.fmax 0.0

/-- A gauge that others feed with the ratio they measured. -/
structure Gauge where
  reading : Option Float
  deriving Repr, Inhabited

namespace Gauge

def empty : Gauge := { reading := none }

/-- The gauge after a measured ratio, kept in `[0, 1]`; what is no finite number counts as
idle. -/
def set (ratio : Float) : Gauge :=
  { reading := some (if ratio.isFinite then Number.clampUnit ratio else 0.0) }

/-- The gauge after a measured amount of a capacity; no capacity at all counts as idle. -/
def setRatio (used capacity : Nat) : Gauge :=
  if capacity = 0 then set 0.0 else set (Number.ofWord used / Number.ofWord capacity)

/-- What the gauge says as a probe. -/
def utilization (g : Gauge) : Reading :=
  match g.reading with
  | some x => .ok x
  | none => .error .noReading

end Gauge

/-- The requests in progress, counted against a capacity. -/
structure RequestTracker where
  active : Nat
  capacity : Nat
  deriving DecidableEq, Repr, Inhabited

namespace RequestTracker

def idle (capacity : Nat) : RequestTracker := { active := 0, capacity }

def enter (t : RequestTracker) : RequestTracker := { t with active := t.active + 1 }

def leave (t : RequestTracker) : RequestTracker := { t with active := t.active - 1 }

/-- The requests in progress as a share of the capacity. -/
def utilization (t : RequestTracker) : Reading :=
  if t.capacity = 0 then .error (.unavailable "request capacity is zero")
  else .ok (Number.ofWord t.active / Number.ofWord t.capacity)

end RequestTracker

end OrderAdmission
