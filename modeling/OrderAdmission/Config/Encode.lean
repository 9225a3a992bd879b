import OrderAdmission.Config.Problem
import OrderAdmission.Wire.Report

/-!
# Settings as a document

All settings as a JSON document, with the two times that follow from them and with what is wrong
with them. A ratio is written as the bits of its binary number.
-/
namespace OrderAdmission

open Json (ofNat ofBits)

/-- A time span as text: it may have more digits than a word. -/
def spanJson (ms : Nat) : Json := .str (Number.natText ms)

def OverloadConfig.toJson (c : OverloadConfig) : Json :=
  .obj [("thread_pool_threshold", ofBits c.threadPoolThreshold),
    ("db_pool_threshold", ofBits c.dbPoolThreshold),
    ("memory_threshold", ofBits c.memoryThreshold),
    ("request_ratio_threshold", ofBits c.requestRatioThreshold),
    ("base_retry_delay_secs", ofNat c.baseRetryDelay),
    ("max_retry_delay_secs", ofNat c.maxRetryDelay),
    ("consecutive_detections", ofNat c.consecutiveDetections),
    ("max_concurrent_requests", ofNat c.maxConcurrentRequests),
    ("memory_sample_interval_ms", ofNat c.memorySampleInterval)]

def BreakerConfig.toJson (c : BreakerConfig) : Json :=
  .obj [("failure_threshold", ofNat c.failureThreshold),
    ("recovery_timeout_ms", ofNat c.recoveryTimeout),
    ("critical_pool_utilization", ofBits c.criticalPoolUtilization),
    ("recovery_timeout", spanJson c.recoveryTimeout)]

def ExecutorConfig.toJson (c : ExecutorConfig) : Json :=
  .obj [("chunk_size", ofNat c.chunkSize), ("chunk_pause_ms", ofNat c.chunkPause),
    ("max_concurrency", ofNat c.maxConcurrency), ("permit_timeout_ms", ofNat c.permitTimeout),
    ("task_timeout_ms", ofNat c.taskTimeout), ("chunk_timeout", spanJson c.chunkTimeout)]

def PersistenceConfig.toJson (c : PersistenceConfig) : Json :=
  .obj [("chunk_size", ofNat c.chunkSize), ("transaction_timeout_ms", ofNat c.transactionTimeout)]

def RetryConfig.toJson (c : RetryConfig) : Json :=
  .obj [("max_retries", ofNat c.maxRetries), ("base_delay_ms", ofNat c.baseDelay),
    ("multiplier", ofBits c.multiplier),
    ("trigger_status_codes", .arr (c.triggerStatusCodes.map ofNat))]

def FallbackConfig.toJson (c : FallbackConfig) : Json :=
  .obj [("enabled", .bool c.enabled), ("bulk_enabled", .bool c.bulkEnabled),
    ("max_individual_orders", ofNat c.maxIndividualOrders),
    ("call_timeout_ms", ofNat c.callTimeout), ("retry", c.retry.toJson)]

def DatabaseConfig.toJson (c : DatabaseConfig) : Json :=
  .obj [("url", .str c.url), ("max_connections", ofNat c.maxConnections),
    ("acquire_timeout_ms", ofNat c.acquireTimeout)]

def DryRunConfig.toJson (c : DryRunConfig) : Json :=
  .obj [("enabled", .bool c.enabled), ("max_latency_ms", ofNat c.maxLatency)]

def LoggingConfig.toJson (c : LoggingConfig) : Json :=
  .obj [("level", .str c.level), ("json", .bool c.json), ("dir", .ofOption .str c.dir)]

/-- The problems of settings, `null` where there is none. -/
def AppConfig.problemsJson (c : AppConfig) : Json :=
  if c.isValid then .null else .arr (c.problems.map fun p => .str p.text)

def AppConfig.toJson (c : AppConfig) : Json :=
  .obj [("overload", c.overload.toJson), ("circuit_breaker", c.breaker.toJson),
    ("executor", c.executor.toJson), ("persistence", c.persistence.toJson),
    ("fallback", c.fallback.toJson), ("database", .ofOption DatabaseConfig.toJson c.database),
    ("dry_run", c.dryRun.toJson), ("logging", c.logging.toJson),
    ("validate", c.problemsJson)]

end OrderAdmission
