import OrderAdmission.Crash

/-!
# Settings

The settings of an admission gate, with the values they have unless something else is given.
All times are in milliseconds unless the name says seconds.
-/
namespace OrderAdmission

/-- When resources count as overloaded, and what wait is suggested then. -/
structure OverloadConfig where
  threadPoolThreshold : Float := 0.90
  dbPoolThreshold : Float := 0.95
  memoryThreshold : Float := 0.85
  requestRatioThreshold : Float := 0.90
  /-- The least suggested wait, in seconds. -/
  baseRetryDelay : Nat := 60
  /-- The longest suggested wait, in seconds. -/
  maxRetryDelay : Nat := 300
  /-- How many breaching checks in a row declare overload. -/
  consecutiveDetections : Nat := 1
  maxConcurrentRequests : Nat := 100
  /-- How often memory is sampled; zero turns sampling off. -/
  memorySampleInterval : Nat := 1000
  deriving Repr, Inhabited

/-- When the circuit opens and how it may close again. -/
structure BreakerConfig where
  failureThreshold : Nat := 5
  /-- Quiet time after the last failure before recovery is tried. -/
  recoveryTimeout : Nat := 30000
  /-- Pool use from which the pool is unhealthy. -/
  criticalPoolUtilization : Float := 0.90
  deriving Repr, Inhabited

/-- How batches are cut into chunks and how long their tasks may wait and run. -/
structure ExecutorConfig where
  chunkSize : Nat := 50
  chunkPause : Nat := 100
  maxConcurrency : Nat := 15
  permitTimeout : Nat := 5000
  taskTimeout : Nat := 30000
  deriving DecidableEq, Repr, Inhabited

/-- The longest time one chunk may take: a full wait for a permit and a full run. -/
def ExecutorConfig.chunkTimeout (c : ExecutorConfig) : Nat := c.permitTimeout + c.taskTimeout

structure PersistenceConfig where
  /-- Rows of one statement. -/
  chunkSize : Nat := 50
  transactionTimeout : Nat := 5000
  deriving DecidableEq, Repr, Inhabited

structure RetryConfig where
  maxRetries : Nat := 2
  baseDelay : Nat := 1000
  multiplier : Float := 2.0
  /-- Status codes that call for another attempt, ascending and without repetition. -/
  triggerStatusCodes : List Nat := [429, 502, 503, 504]
  deriving Repr, Inhabited

structure FallbackConfig where
  /-- Whether orders may go one by one after the bulk call failed. -/
  enabled : Bool := true
  bulkEnabled : Bool := true
  /-- The largest batch whose orders may go one by one after the bulk call failed. -/
  maxIndividualOrders : Nat := 10
  callTimeout : Nat := 60000
  retry : RetryConfig := {}
  deriving Repr, Inhabited

structure DatabaseConfig where
  url : String
  maxConnections : Nat := 20
  acquireTimeout : Nat := 5000
  deriving DecidableEq, Repr, Inhabited

/-- Whether orders are acknowledged without an execution service. -/
structure DryRunConfig where
  enabled : Bool := true
  /-- The longest simulated time of a call. -/
  maxLatency : Nat := 20
  deriving DecidableEq, Repr, Inhabited

structure LoggingConfig where
  level : String := "info"
  json : Bool := false
  dir : Option String := none
  deriving DecidableEq, Repr, Inhabited

structure AppConfig where
  overload : OverloadConfig := {}
  breaker : BreakerConfig := {}
  executor : ExecutorConfig := {}
  persistence : PersistenceConfig := {}
  fallback : FallbackConfig := {}
  /-- Without a database, orders are kept in memory. -/
  database : Option DatabaseConfig := none
  dryRun : DryRunConfig := {}
  logging : LoggingConfig := {}
  deriving Repr, Inhabited

end OrderAdmission
