import OrderAdmission.Config.Basic
import OrderAdmission.Probe

/-!
# The overload detector

A resource *breaches* when its reading lies strictly above its threshold; what cannot be read
never breaches. A check that sees a breach lengthens the streak, a clean one ends it, and overload
is declared once the streak is as long as the settings ask. The suggested wait grows with the
highest reading, from the base delay to the longest one.

The streak is kept in a 32-bit word, which wraps around; the decision uses the streak before the
check, raised by one without wrapping.
-/
namespace OrderAdmission

structure OverloadState where
  overloaded : Bool
  /-- The suggested wait in seconds, zero without overload. -/
  retryAfter : Nat
  deriving DecidableEq, Repr, Inhabited

def OverloadState.healthy : OverloadState := { overloaded := false, retryAfter := 0 }

def OverloadConfig.threshold (c : OverloadConfig) : ResourceKind → Float
  | .threadPool => c.threadPoolThreshold
  | .dbPool => c.dbPoolThreshold
  | .memory => c.memoryThreshold
  | .requestRatio => c.requestRatioThreshold

/-- The resources above their thresholds, with their readings. -/
def OverloadConfig.breaches (c : OverloadConfig) (s : Snapshot) : List (ResourceKind × Float) :=
  ResourceKind.all.filterMap fun kind =>
    match s kind with
    | some x => if c.threshold kind < x then some (kind, x) else none
    | none => none

/-- The number of breaching checks in a row that declares overload; zero counts as one. -/
def OverloadConfig.required (c : OverloadConfig) : Nat := max 1 c.consecutiveDetections

/-- The suggested wait at a peak: from the base delay up to the longest delay in proportion, and
the base delay if the longest lies below it. -/
def OverloadConfig.retryDelay (c : OverloadConfig) (peak : Float) : Nat :=
  let base := c.baseRetryDelay
  let top := max c.maxRetryDelay base
  let delay := Number.ofWord base + Number.ofWord (top - base) * Number.clampUnit peak
  max base (min top (Number.roundWord delay))

/-- Whether memory is sampled at all. -/
def OverloadConfig.samplesMemory (c : OverloadConfig) : Bool := decide (0 < c.memorySampleInterval)

/-- An overload detector; the readings are given with each question. -/
structure Detector where
  config : OverloadConfig
  /-- How many checks in a row have seen a breach. -/
  streak : UInt32

namespace Detector

/-- A detector that has not checked anything. -/
def fresh (config : OverloadConfig) : Detector := { config, streak := 0 }

/-- The streak that a breaching check would have, without wrapping. -/
def raisedStreak (d : Detector) : Nat := min (d.streak.toNat + 1) (UInt32.size - 1)

/-- What a check would say right now. -/
def state (d : Detector) (s : Snapshot) : OverloadState :=
  if (d.config.breaches s).isEmpty then .healthy
  else if d.raisedStreak < d.config.required then .healthy
  else { overloaded := true, retryAfter := d.config.retryDelay s.peak }

/-- Checks for overload and counts the check: a clean one ends the streak, and any other is added
to the word, which may wrap. -/
def check (d : Detector) (s : Snapshot) : OverloadState × Detector :=
  if (d.config.breaches s).isEmpty then (.healthy, { d with streak := 0 })
  else
    let counted : Detector := { d with streak := d.streak + 1 }
    if d.raisedStreak < d.config.required then (.healthy, counted)
    else ({ overloaded := true, retryAfter := d.config.retryDelay s.peak }, counted)

/-- Whether a check would declare overload right now. -/
def isOverloaded (d : Detector) (s : Snapshot) : Bool := (d.state s).overloaded

/-- The wait that the readings suggest, overload or not. -/
def retryDelaySeconds (d : Detector) (s : Snapshot) : Nat := d.config.retryDelay s.peak

end Detector

end OrderAdmission
