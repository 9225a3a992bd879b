import OrderAdmission.Config.Basic
import OrderAdmission.Number.Binary

/-!
# Problems of settings

Checking settings before they are used. `AppConfig.problems` lists everything that is wrong with
them, in a fixed order; settings without a problem are accepted.
-/
namespace OrderAdmission

inductive ConfigProblem where
  /-- A ratio outside `(0, 1]`. -/
  | ratio (name : String) (value : Float)
  | retryDelaysCrossed
  | noDetections
  | noRequests
  | noFailureThreshold
  | noExecutorChunk
  | noConcurrency
  | noPersistenceChunk
  | multiplierBelowOne
  | moreTasksThanConnections (concurrency connections : Nat)
  deriving Repr

def ConfigProblem.text : ConfigProblem → String
  | ratio name value => s!"{name} must be in (0, 1], got {Number.floatText value}"
  | retryDelaysCrossed => "overload.base_retry_delay_secs must not exceed max_retry_delay_secs"
  | noDetections => "overload.consecutive_detections must be at least 1"
  | noRequests => "overload.max_concurrent_requests must be positive"
  | noFailureThreshold => "circuit_breaker.failure_threshold must be positive"
  | noExecutorChunk => "executor.chunk_size must be positive"
  | noConcurrency => "executor.max_concurrency must be positive"
  | noPersistenceChunk => "persistence.chunk_size must be positive"
  | multiplierBelowOne => "fallback.retry.multiplier must be >= 1.0"
  | moreTasksThanConnections n m =>
    s!"executor.max_concurrency ({n}) exceeds database.max_connections ({m}); " ++
      "contention would surface as pool exhaustion instead of permit timeouts"

namespace AppConfig

/-- Whether a number is a ratio that makes sense as a threshold. -/
def isRatio (x : Float) : Bool := decide (0.0 < x) && decide (x ≤ 1.0)

def ratios (c : AppConfig) : List (String × Float) :=
  [("overload.thread_pool_threshold", c.overload.threadPoolThreshold),
   ("overload.db_pool_threshold", c.overload.dbPoolThreshold),
   ("overload.memory_threshold", c.overload.memoryThreshold),
   ("overload.request_ratio_threshold", c.overload.requestRatioThreshold),
   ("circuit_breaker.critical_pool_utilization", c.breaker.criticalPoolUtilization)]

def problemIf (condition : Bool) (p : ConfigProblem) : List ConfigProblem :=
  if condition then [p] else []

def problems (c : AppConfig) : List ConfigProblem :=
  (c.ratios.filter fun (_, x) => !isRatio x).map (fun (name, x) => .ratio name x)
  ++ problemIf (decide (c.overload.maxRetryDelay < c.overload.baseRetryDelay)) .retryDelaysCrossed
  ++ problemIf (c.overload.consecutiveDetections == 0) .noDetections
  ++ problemIf (c.overload.maxConcurrentRequests == 0) .noRequests
  ++ problemIf (c.breaker.failureThreshold == 0) .noFailureThreshold
  ++ problemIf (c.executor.chunkSize == 0) .noExecutorChunk
  ++ problemIf (c.executor.maxConcurrency == 0) .noConcurrency
  ++ problemIf (c.persistence.chunkSize == 0) .noPersistenceChunk
  ++ problemIf (decide (c.fallback.retry.multiplier < 1.0)) .multiplierBelowOne
  ++ match c.database with
    | some db =>
      problemIf (decide (db.maxConnections < c.executor.maxConcurrency))
        (.moreTasksThanConnections c.executor.maxConcurrency db.maxConnections)
    | none => []

def isValid (c : AppConfig) : Bool := c.problems.isEmpty

end AppConfig

end OrderAdmission
