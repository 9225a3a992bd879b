import OrderAdmission.Config.Basic
import OrderAdmission.Json.Decode

/-!
# Settings from a document

Reading settings from a JSON document, where everything missing has its default.
-/
namespace OrderAdmission

open Json (asBool asText asNat asFloat asList)

/-- Sorts numbers and drops repetitions. -/
def ascending (ns : List Nat) : List Nat :=
  (ns.mergeSort (· ≤ ·)).eraseReps

/-- How the members of a document become values. Settings from layered sources are read with more
liberty than a document of their own. -/
structure SettingReader where
  /-- The fields of a section with at most this many. -/
  fields : Nat → Json → Option Json.Fields
  flag : Json → Option Bool
  text : Json → Option String
  /-- A natural number with at most this many bits. -/
  count : Nat → Json → Option Nat
  ratio : Json → Option Float

/-- Reads values exactly as they are written. -/
def SettingReader.exact : SettingReader :=
  { fields := fun count j => j.fields? count
    flag := asBool, text := asText, count := asNat, ratio := asFloat }

def OverloadConfig.ofJson? (r : SettingReader) (j : Json) : Option OverloadConfig := do
  let f ← r.fields 9 j
  let d : OverloadConfig := {}
  return {
    threadPoolThreshold := ← f.withDefault r.ratio d.threadPoolThreshold 0 "thread_pool_threshold"
    dbPoolThreshold := ← f.withDefault r.ratio d.dbPoolThreshold 1 "db_pool_threshold"
    memoryThreshold := ← f.withDefault r.ratio d.memoryThreshold 2 "memory_threshold"
    requestRatioThreshold :=
      ← f.withDefault r.ratio d.requestRatioThreshold 3 "request_ratio_threshold"
    baseRetryDelay := ← f.withDefault (r.count 64) d.baseRetryDelay 4 "base_retry_delay_secs"
    maxRetryDelay := ← f.withDefault (r.count 64) d.maxRetryDelay 5 "max_retry_delay_secs"
    consecutiveDetections :=
      ← f.withDefault (r.count 32) d.consecutiveDetections 6 "consecutive_detections"
    maxConcurrentRequests :=
      ← f.withDefault (r.count 64) d.maxConcurrentRequests 7 "max_concurrent_requests"
    memorySampleInterval :=
      ← f.withDefault (r.count 64) d.memorySampleInterval 8 "memory_sample_interval_ms" }

def BreakerConfig.ofJson? (r : SettingReader) (j : Json) : Option BreakerConfig := do
  let f ← r.fields 3 j
  let d : BreakerConfig := {}
  return {
    failureThreshold := ← f.withDefault (r.count 32) d.failureThreshold 0 "failure_threshold"
    recoveryTimeout := ← f.withDefault (r.count 64) d.recoveryTimeout 1 "recovery_timeout_ms"
    criticalPoolUtilization :=
      ← f.withDefault r.ratio d.criticalPoolUtilization 2 "critical_pool_utilization" }

def ExecutorConfig.ofJson? (r : SettingReader) (j : Json) : Option ExecutorConfig := do
  let f ← r.fields 5 j
  let d : ExecutorConfig := {}
  return {
    chunkSize := ← f.withDefault (r.count 64) d.chunkSize 0 "chunk_size"
    chunkPause := ← f.withDefault (r.count 64) d.chunkPause 1 "chunk_pause_ms"
    maxConcurrency := ← f.withDefault (r.count 64) d.maxConcurrency 2 "max_concurrency"
    permitTimeout := ← f.withDefault (r.count 64) d.permitTimeout 3 "permit_timeout_ms"
    taskTimeout := ← f.withDefault (r.count 64) d.taskTimeout 4 "task_timeout_ms" }

def PersistenceConfig.ofJson? (r : SettingReader) (j : Json) : Option PersistenceConfig := do
  let f ← r.fields 2 j
  let d : PersistenceConfig := {}
  return {
    chunkSize := ← f.withDefault (r.count 64) d.chunkSize 0 "chunk_size"
    transactionTimeout :=
      ← f.withDefault (r.count 64) d.transactionTimeout 1 "transaction_timeout_ms" }

def RetryConfig.ofJson? (r : SettingReader) (j : Json) : Option RetryConfig := do
  let f ← r.fields 4 j
  let d : RetryConfig := {}
  return {
    maxRetries := ← f.withDefault (r.count 32) d.maxRetries 0 "max_retries"
    baseDelay := ← f.withDefault (r.count 64) d.baseDelay 1 "base_delay_ms"
    multiplier := ← f.withDefault r.ratio d.multiplier 2 "multiplier"
    triggerStatusCodes := ascending
      (← f.withDefault (asList (r.count 16)) d.triggerStatusCodes 3 "trigger_status_codes") }

def FallbackConfig.ofJson? (r : SettingReader) (j : Json) : Option FallbackConfig := do
  let f ← r.fields 5 j
  let d : FallbackConfig := {}
  return {
    enabled := ← f.withDefault r.flag d.enabled 0 "enabled"
    bulkEnabled := ← f.withDefault r.flag d.bulkEnabled 1 "bulk_enabled"
    maxIndividualOrders :=
      ← f.withDefault (r.count 64) d.maxIndividualOrders 2 "max_individual_orders"
    callTimeout := ← f.withDefault (r.count 64) d.callTimeout 3 "call_timeout_ms"
    retry := ← f.withDefault (RetryConfig.ofJson? r) d.retry 4 "retry" }

def DatabaseConfig.ofJson? (r : SettingReader) (j : Json) : Option DatabaseConfig := do
  let f ← r.fields 3 j
  return {
    url := ← f.required r.text 0 "url"
    maxConnections := ← f.withDefault (r.count 32) 20 1 "max_connections"
    acquireTimeout := ← f.withDefault (r.count 64) 5000 2 "acquire_timeout_ms" }

def DryRunConfig.ofJson? (r : SettingReader) (j : Json) : Option DryRunConfig := do
  let f ← r.fields 2 j
  let d : DryRunConfig := {}
  return {
    enabled := ← f.withDefault r.flag d.enabled 0 "enabled"
    maxLatency := ← f.withDefault (r.count 64) d.maxLatency 1 "max_latency_ms" }

def LoggingConfig.ofJson? (r : SettingReader) (j : Json) : Option LoggingConfig := do
  let f ← r.fields 3 j
  let d : LoggingConfig := {}
  return {
    level := ← f.withDefault r.text d.level 0 "level"
    json := ← f.withDefault r.flag d.json 1 "json"
    dir := ← f.withDefault (Json.nullable r.text) d.dir 2 "dir" }

def AppConfig.ofJson? (r : SettingReader) (j : Json) : Option AppConfig := do
  let f ← r.fields 8 j
  return {
    overload := ← f.withDefault (OverloadConfig.ofJson? r) {} 0 "overload"
    breaker := ← f.withDefault (BreakerConfig.ofJson? r) {} 1 "circuit_breaker"
    executor := ← f.withDefault (ExecutorConfig.ofJson? r) {} 2 "executor"
    persistence := ← f.withDefault (PersistenceConfig.ofJson? r) {} 3 "persistence"
    fallback := ← f.withDefault (FallbackConfig.ofJson? r) {} 4 "fallback"
    database := ← f.withDefault (Json.nullable (DatabaseConfig.ofJson? r)) none 5 "database"
    dryRun := ← f.withDefault (DryRunConfig.ofJson? r) {} 6 "dry_run"
    logging := ← f.withDefault (LoggingConfig.ofJson? r) {} 7 "logging" }

end OrderAdmission
