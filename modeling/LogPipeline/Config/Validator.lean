/-
  LogPipeline.Config.Validator

  `internal/config/validator.go`: every check with its message, in order.

  A validator is the list of the messages of its failed checks; `Accepted` is a
  configuration that `Validate` returns no error for, and the facts the rest of
  the development takes from that are proved here once (`Accepted.queue`,
  `Accepted.worker`, `Accepted.throttler`, `Accepted.registry`).
-/

import LogPipeline.Config.Basic

namespace LogPipeline

/-- The queue settings `validateQueue` guarantees. -/
structure QueueConfig.Ok (cfg : QueueConfig) : Prop where
  redisMaxRetries : 0 < cfg.redisMaxRetries
  maxLen : 0 < cfg.maxLen
  dlqMaxLen : 0 < cfg.dlqMaxLen
  dlq_ne_base : cfg.dlqStreamName ≠ cfg.baseStreamName
  partitionCount : 0 < cfg.partitionCount
  partitionID_nonneg : 0 ≤ cfg.partitionID
  partitionID_lt : cfg.partitionID < cfg.partitionCount

/-- The registry settings `validateRegistry` guarantees. -/
structure RegistryConfig.Ok (cfg : RegistryConfig) : Prop where
  heartbeatInterval : 0 < cfg.heartbeatInterval
  deadThreshold : cfg.heartbeatInterval < cfg.deadThreshold
  pollInterval : 0 < cfg.pollInterval
  controlPlanePoll : 0 < cfg.controlPlanePoll
  lockTTL : cfg.controlPlanePoll < cfg.lockTTL

/-- The worker settings `validateWorker` guarantees. -/
structure WorkerConfig.Ok (cfg : WorkerConfig) : Prop where
  concurrency_pos : 0 < cfg.concurrency
  concurrency_le : cfg.concurrency ≤ 1000
  reclaimInterval : 0 < cfg.reclaimInterval
  reclaimIdleTime : cfg.reclaimInterval ≤ cfg.reclaimIdleTime
  reclaimBatchSize : 0 < cfg.reclaimBatchSize
  dedupTTL : 0 < cfg.dedupTTL

/-- The throttler settings `validateThrottler` guarantees when it is enabled. -/
structure ThrottlerConfig.Ok (cfg : ThrottlerConfig) : Prop where
  softDepthLimit : 0 < cfg.softDepthLimit
  hard_gt_soft : cfg.softDepthLimit < cfg.hardDepthLimit
  maxMessageAge : 0 < cfg.maxMessageAge
  critical_gt_max : cfg.maxMessageAge < cfg.criticalMessageAge
  rateLimitScore : 0 < cfg.rateLimitScore
  circuit_gt_rate : cfg.rateLimitScore < cfg.circuitOpenScore
  metricsUpdateInterval : 0 < cfg.metricsUpdateInterval
  estimatedDrainRate : 0 < cfg.estimatedDrainRate
  minRetryAfter : 0 < cfg.minRetryAfter
  max_gt_min : cfg.minRetryAfter < cfg.maxRetryAfter

namespace Config

open Go (formatInt formatDuration formatFixed2 parseInt toLower)

-- ============================================================================
-- Checks
-- ============================================================================

/-- One check: its message if the setting is bad. -/
def check (bad : Prop) [Decidable bad] (msg : String) : List String := if bad then [msg] else []

/-- Whether the text is not a port number: `strconv.Atoi` fails or the value is
    out of range. -/
def badPort (port : String) : Bool :=
  match parseInt port with
  | none => true
  | some p => decide (p < 1) || decide (p > 65535)

/-- A port setting: it is required, and has to be a port number. -/
def checkPort (required range port : String) : List String :=
  if port = "" then [required] else check (badPort port = true) (range ++ port)

/-- A string that has to be one of a list. -/
def checkOneOf (what : String) (valid : List String) (seen shown : String) : List String :=
  check (seen ∉ valid)
    (what ++ " must be one of [" ++ " ".intercalate valid ++ "], got: " ++ shown)

/-- `combineErrors`; `none` is the nil error. -/
def combineErrors : List String → Option String
  | [] => none
  | [e] => some e
  | es => some ("; ".intercalate es)

/-- `formatErrors`. -/
def formatErrors (errs : List String) : String :=
  errs.foldl (fun s e => s ++ "  - " ++ e ++ "\n") "configuration validation failed:\n"

theorem combineErrors_eq_none {errs : List String} : combineErrors errs = none ↔ errs = [] := by
  unfold combineErrors
  split <;> simp_all

@[simp] theorem check_eq_nil {bad : Prop} [Decidable bad] {msg : String} :
    check bad msg = [] ↔ ¬bad := by
  unfold check
  split <;> simp_all

-- ============================================================================
-- The sections
-- ============================================================================

def validateServer (cfg : ServerConfig) : Option String :=
  combineErrors
    (checkPort "port is required" "port must be between 1 and 65535, got: " cfg.port ++
     check (cfg.readTimeout ≤ 0) "read timeout must be positive" ++
     check (cfg.writeTimeout ≤ 0) "write timeout must be positive" ++
     check (cfg.shutdownTimeout ≤ 0) "shutdown timeout must be positive")

def validateRedis (cfg : RedisClientConfig) : Option String :=
  combineErrors
    (check (cfg.host = "") "host is required" ++
     checkPort "port is required" "port must be between 1 and 65535, got: " cfg.port ++
     check (cfg.db < 0 ∨ cfg.db > 15)
       ("db must be between 0 and 15, got: " ++ formatInt cfg.db) ++
     check (cfg.poolSize ≤ 0) "pool size must be positive")

def validateQueue (cfg : QueueConfig) : Option String :=
  combineErrors
    (check (cfg.baseStreamName = "") "stream name is required" ++
     check (cfg.baseConsumerGroup = "") "consumer group is required" ++
     check (cfg.redisMaxRetries ≤ 0) "max retries must be positive" ++
     check (cfg.maxLen ≤ 0) "max length must be positive" ++
     check (cfg.dlqStreamName = "") "DLQ stream name is required" ++
     check (cfg.dlqMaxLen ≤ 0) "DLQ max length must be positive" ++
     check (cfg.dlqStreamName = cfg.baseStreamName)
       "DLQ stream name must be different from main stream" ++
     check (cfg.partitionCount ≤ 0) "partition count must be positive" ++
     check (cfg.partitionID < 0 ∨ cfg.partitionID ≥ cfg.partitionCount)
       ("partition ID " ++ formatInt cfg.partitionID ++ " out of range [0, " ++
        formatInt cfg.partitionCount ++ ")"))

def validatePostgres (cfg : PostgresClientConfig) : Option String :=
  combineErrors
    (check (cfg.host = "") "host is required" ++
     checkPort "port is required" "port must be between 1 and 65535, got: " cfg.port ++
     check (cfg.database = "") "database name is required" ++
     check (cfg.user = "") "user is required" ++
     checkOneOf "ssl mode" ["disable", "require", "verify-ca", "verify-full"]
       cfg.sslMode cfg.sslMode ++
     check (cfg.maxConns ≤ 0) "max connections must be positive" ++
     check (cfg.minConns < 0) "min connections cannot be negative" ++
     check (cfg.minConns > cfg.maxConns)
       ("min connections (" ++ formatInt cfg.minConns ++ ") cannot exceed max connections (" ++
        formatInt cfg.maxConns ++ ")"))

def validateWorker (cfg : WorkerConfig) : Option String :=
  combineErrors
    ((if cfg.concurrency ≤ 0 then ["concurrency must be positive"]
      else check (cfg.concurrency > 1000)
        ("concurrency cannot exceed 1000, got: " ++ formatInt cfg.concurrency)) ++
     check (cfg.pollInterval ≤ 0) "poll interval must be positive" ++
     check (cfg.batchSize ≤ 0) "batch size must be positive" ++
     check (cfg.processingTimeout ≤ 0) "processing timeout must be positive" ++
     check (cfg.jobMaxRetries < 0) "max retries cannot be negative" ++
     check (cfg.backoffMinDelay ≤ 0) "backoff min delay must be positive" ++
     check (cfg.backoffMaxDelay ≤ 0) "backoff max delay must be positive" ++
     check (cfg.backoffMinDelay > cfg.backoffMaxDelay)
       ("backoff min delay (" ++ formatDuration cfg.backoffMinDelay ++
        ") cannot exceed max delay (" ++ formatDuration cfg.backoffMaxDelay ++ ")") ++
     check (cfg.healthPort = "") "health port is required" ++
     check (cfg.reclaimInterval ≤ 0) "reclaim interval must be positive" ++
     check (cfg.reclaimIdleTime ≤ 0) "reclaim idle time must be positive" ++
     check (cfg.reclaimIdleTime < cfg.reclaimInterval)
       ("reclaim idle time (" ++ formatDuration cfg.reclaimIdleTime ++
        ") must be >= reclaim interval (" ++ formatDuration cfg.reclaimInterval ++
        "), ideally 2-3x") ++
     check (cfg.reclaimBatchSize ≤ 0) "reclaim batch size must be positive" ++
     check (cfg.dedupTTL ≤ 0) "deduplication TTL must be positive")

def validateIngestion (cfg : IngestionConfig) : Option String :=
  combineErrors (check (cfg.maxQueueDepth < 0) "max queue depth cannot be negative")

def validateObservability (cfg : ObservabilityConfig) : Option String :=
  combineErrors
    (checkOneOf "log level" ["debug", "info", "warn", "error"] (toLower cfg.logLevel)
       cfg.logLevel ++
     checkOneOf "log format" ["json", "text"] (toLower cfg.logFormat) cfg.logFormat ++
     (if cfg.metricsEnabled then
        checkPort "metrics port is required when metrics are enabled"
          "metrics port must be between 1 and 65535, got: " cfg.metricsPort
      else []) ++
     (if cfg.tracingEnabled then
        check (cfg.tracingSampleRate < 0 ∨ cfg.tracingSampleRate > 1)
          ("tracing sample rate must be between 0.0 and 1.0, got: " ++
           formatFixed2 cfg.tracingSampleRate)
      else []) ++
     check (cfg.healthCheckTimeout ≤ 0) "health check timeout must be positive")

def validateThrottler (cfg : ThrottlerConfig) : Option String :=
  -- nothing is checked while the throttler is disabled
  if cfg.enabled = false then none
  else
    combineErrors
      (check (cfg.softDepthLimit ≤ 0) "throttler soft depth limit must be positive" ++
       check (cfg.hardDepthLimit ≤ 0) "throttler hard depth limit must be positive" ++
       check (cfg.hardDepthLimit ≤ cfg.softDepthLimit)
         "throttler hard depth limit must be greater than soft depth limit" ++
       check (cfg.maxMessageAge ≤ 0) "throttler max message age must be positive" ++
       check (cfg.criticalMessageAge ≤ cfg.maxMessageAge)
         "throttler critical message age must be greater than max message age" ++
       check (cfg.rateLimitScore ≤ 0) "throttler rate limit score must be positive" ++
       check (cfg.circuitOpenScore ≤ cfg.rateLimitScore)
         "throttler circuit open score must be greater than rate limit score" ++
       check (cfg.metricsUpdateInterval ≤ 0)
         "throttler metrics update interval must be positive" ++
       check (cfg.estimatedDrainRate ≤ 0)
         "throttler estimated drain rate must be positive" ++
       check (cfg.minRetryAfter ≤ 0) "throttler min retry after must be positive" ++
       check (cfg.maxRetryAfter ≤ cfg.minRetryAfter)
         "throttler max retry after must be greater than min retry after")

def validateRegistry (cfg : RegistryConfig) : Option String :=
  combineErrors
    (check (cfg.heartbeatInterval ≤ 0) "registry heartbeat interval must be positive" ++
     check (cfg.deadThreshold ≤ cfg.heartbeatInterval)
       "registry dead threshold must be greater than heartbeat interval" ++
     check (cfg.pollInterval ≤ 0) "registry poll interval must be positive" ++
     check (cfg.controlPlanePoll ≤ 0) "registry control plane poll interval must be positive" ++
     check (cfg.lockTTL ≤ cfg.controlPlanePoll)
       "registry lock TTL must be greater than control plane poll interval")

-- ============================================================================
-- The whole configuration
-- ============================================================================

/-- The error of one section, wrapped in the section's label. -/
def labelled (label : String) (err : Option String) : List String :=
  (err.map fun e => label ++ e).toList

/-- `Validate`; `none` is the nil error. -/
def validate (cfg : Config) : Option String :=
  let errs :=
    labelled "server config: " (validateServer cfg.server) ++
    labelled "redis config: " (validateRedis cfg.redis) ++
    labelled "queue config: " (validateQueue cfg.queue) ++
    labelled "postgres config: " (validatePostgres cfg.postgres) ++
    labelled "ingestion config: " (validateIngestion cfg.ingestion) ++
    labelled "worker config: " (validateWorker cfg.worker) ++
    labelled "observability config: " (validateObservability cfg.observability) ++
    labelled "" (validateThrottler cfg.ingestion.throttler) ++
    labelled "" (validateRegistry cfg.registry)
  if errs = [] then none else some (formatErrors errs)

/-- A configuration that `Validate` accepts. -/
structure Accepted where
  cfg : Config
  valid : validate cfg = none

@[simp] theorem labelled_eq_nil {label : String} {err : Option String} :
    labelled label err = [] ↔ err = none := by
  cases err <;> simp [labelled]

theorem validate_eq_none {cfg : Config} : validate cfg = none ↔
    validateServer cfg.server = none ∧ validateRedis cfg.redis = none ∧
    validateQueue cfg.queue = none ∧ validatePostgres cfg.postgres = none ∧
    validateIngestion cfg.ingestion = none ∧ validateWorker cfg.worker = none ∧
    validateObservability cfg.observability = none ∧
    validateThrottler cfg.ingestion.throttler = none ∧ validateRegistry cfg.registry = none := by
  unfold validate
  simp only [ite_eq_left_iff, reduceCtorEq, imp_false, not_not, List.append_eq_nil_iff,
    labelled_eq_nil, and_assoc]

theorem validateQueue_ok {cfg : QueueConfig} (h : validateQueue cfg = none) : cfg.Ok := by
  unfold validateQueue at h
  simp only [combineErrors_eq_none, List.append_eq_nil_iff, check_eq_nil, Int64.not_le,
    not_or, ge_iff_le, Int64.not_lt, and_assoc] at h
  obtain ⟨-, -, hretries, hlen, -, hdlq, hne, hcount, hlo, hhi⟩ := h
  exact ⟨hretries, hlen, hdlq, hne, hcount, hlo, hhi⟩

theorem validateWorker_ok {cfg : WorkerConfig} (h : validateWorker cfg = none) : cfg.Ok := by
  unfold validateWorker at h
  simp only [combineErrors_eq_none, List.append_eq_nil_iff, check_eq_nil, Int64.not_le,
    Int64.not_lt, gt_iff_lt, and_assoc] at h
  obtain ⟨hconc, -, -, -, -, -, -, -, -, hint, -, hidle, hbatch, httl⟩ := h
  split at hconc
  · cases hconc
  · next hpos =>
      rw [check_eq_nil, Int64.not_lt] at hconc
      exact ⟨Int64.not_le.mp hpos, hconc, hint, hidle, hbatch, httl⟩

theorem validateThrottler_ok {cfg : ThrottlerConfig} (hen : cfg.enabled = true)
    (h : validateThrottler cfg = none) : cfg.Ok := by
  unfold validateThrottler at h
  rw [if_neg (by simp [hen])] at h
  simp only [combineErrors_eq_none, List.append_eq_nil_iff, check_eq_nil, Int64.not_le,
    Rat.not_le, and_assoc] at h
  obtain ⟨hsoft, -, hhard, hage, hcrit, hrate, hopen, hint, hdrain, hmin, hmax⟩ := h
  exact ⟨hsoft, hhard, hage, hcrit, hrate, hopen, hint, hdrain, hmin, hmax⟩

theorem validateThrottler_of_ok {cfg : ThrottlerConfig} (hok : cfg.Ok) :
    validateThrottler cfg = none := by
  have hhard : 0 < cfg.hardDepthLimit := Int64.lt_trans hok.softDepthLimit hok.hard_gt_soft
  unfold validateThrottler
  split
  · rfl
  · simp only [combineErrors_eq_none, List.append_eq_nil_iff, check_eq_nil, Int64.not_le,
      Rat.not_le, and_assoc]
    exact ⟨hok.softDepthLimit, hhard, hok.hard_gt_soft, hok.maxMessageAge, hok.critical_gt_max,
      hok.rateLimitScore, hok.circuit_gt_rate, hok.metricsUpdateInterval,
      hok.estimatedDrainRate, hok.minRetryAfter, hok.max_gt_min⟩

theorem validateRegistry_ok {cfg : RegistryConfig} (h : validateRegistry cfg = none) :
    cfg.Ok := by
  unfold validateRegistry at h
  simp only [combineErrors_eq_none, List.append_eq_nil_iff, check_eq_nil, Int64.not_le,
    and_assoc] at h
  obtain ⟨hbeat, hdead, hpoll, hcp, hlock⟩ := h
  exact ⟨hbeat, hdead, hpoll, hcp, hlock⟩

namespace Accepted

theorem queue (a : Accepted) : a.cfg.queue.Ok :=
  validateQueue_ok (validate_eq_none.mp a.valid).2.2.1

theorem worker (a : Accepted) : a.cfg.worker.Ok :=
  validateWorker_ok (validate_eq_none.mp a.valid).2.2.2.2.2.1

theorem throttler (a : Accepted) (hen : a.cfg.ingestion.throttler.enabled = true) :
    a.cfg.ingestion.throttler.Ok :=
  validateThrottler_ok hen (validate_eq_none.mp a.valid).2.2.2.2.2.2.2.1

theorem registry (a : Accepted) : a.cfg.registry.Ok :=
  validateRegistry_ok (validate_eq_none.mp a.valid).2.2.2.2.2.2.2.2

/-- The same settings for the process of another partition: only the partition
    id differs, and it has to be in range. -/
theorem validate_withPartition {cfg : Config} (h : validate cfg = none) {p : Int64}
    (hlo : 0 ≤ p) (hhi : p < cfg.queue.partitionCount) :
    validate { cfg with queue := { cfg.queue with partitionID := p } } = none := by
  rw [validate_eq_none] at h ⊢
  obtain ⟨h1, h2, hq, hrest⟩ := h
  refine ⟨h1, h2, ?_, hrest⟩
  unfold validateQueue at hq ⊢
  simp only [combineErrors_eq_none, List.append_eq_nil_iff, check_eq_nil, Int64.not_le,
    not_or, ge_iff_le, Int64.not_lt] at hq ⊢
  exact ⟨hq.1, hlo, hhi⟩

end Accepted

/-- The default configuration passes its own validation. -/
theorem validate_getDefaults : validate getDefaults = none := by
  decide +kernel

end Config

end LogPipeline
