/-
  LogPipeline.Config.Basic

  The configuration and its default values (`internal/config/config.go`,
  `internal/config/defaults.go`).

  Kept are the settings that a validator or a modelled component reads.
  `float64` settings are exact rationals.
-/

import LogPipeline.Go.Strconv

namespace LogPipeline

open Go (Duration second millisecond)

structure ThrottlerConfig where
  enabled : Bool
  softDepthLimit : Int64
  hardDepthLimit : Int64
  maxMessageAge : Duration
  criticalMessageAge : Duration
  rateLimitScore : Rat
  circuitOpenScore : Rat
  metricsUpdateInterval : Duration
  /-- Messages per second. -/
  estimatedDrainRate : Rat
  minRetryAfter : Duration
  maxRetryAfter : Duration

structure IngestionConfig where
  maxQueueDepth : Int64
  throttler : ThrottlerConfig

structure RegistryConfig where
  heartbeatInterval : Duration
  deadThreshold : Duration
  pollInterval : Duration
  controlPlanePoll : Duration
  lockTTL : Duration

structure WorkerConfig where
  concurrency : Int64
  pollInterval : Duration
  batchSize : Int64
  processingTimeout : Duration
  jobMaxRetries : Int64
  backoffMinDelay : Duration
  backoffMaxDelay : Duration
  healthPort : String
  reclaimInterval : Duration
  reclaimIdleTime : Duration
  reclaimBatchSize : Int64
  dedupTTL : Duration

structure ServerConfig where
  port : String
  readTimeout : Duration
  writeTimeout : Duration
  shutdownTimeout : Duration

structure QueueConfig where
  baseStreamName : String
  baseConsumerGroup : String
  redisMaxRetries : Int64
  maxLen : Int64
  dlqStreamName : String
  dlqMaxLen : Int64
  partitionCount : Int64
  partitionID : Int64

structure RedisClientConfig where
  host : String
  port : String
  db : Int64
  poolSize : Int64

structure PostgresClientConfig where
  host : String
  port : String
  database : String
  user : String
  sslMode : String
  maxConns : Int64
  minConns : Int64

structure ObservabilityConfig where
  logLevel : String
  logFormat : String
  metricsEnabled : Bool
  metricsPort : String
  tracingEnabled : Bool
  tracingSampleRate : Rat
  healthCheckTimeout : Duration

structure Config where
  ingestion : IngestionConfig
  worker : WorkerConfig
  registry : RegistryConfig
  server : ServerConfig
  redis : RedisClientConfig
  queue : QueueConfig
  postgres : PostgresClientConfig
  observability : ObservabilityConfig

-- ============================================================================
-- Defaults
-- ============================================================================

namespace Config

def defaultThrottler : ThrottlerConfig where
  enabled := true
  softDepthLimit := 100
  hardDepthLimit := 5000
  maxMessageAge := 30 * second
  criticalMessageAge := 60 * second
  rateLimitScore := 1
  circuitOpenScore := 3 / 2
  metricsUpdateInterval := 500 * millisecond
  estimatedDrainRate := 100
  minRetryAfter := 1 * second
  maxRetryAfter := 30 * second

def defaultWorker : WorkerConfig where
  concurrency := 2
  pollInterval := 100 * millisecond
  batchSize := 10
  processingTimeout := 30 * second
  jobMaxRetries := 3
  backoffMinDelay := 500 * millisecond
  backoffMaxDelay := 5 * second
  healthPort := "8081"
  reclaimInterval := 30 * second
  reclaimIdleTime := 60 * second
  -- `GetDefaults` takes the batch size here, not the reclaim batch size of 100
  reclaimBatchSize := 10
  dedupTTL := 3600 * second

def defaultQueue : QueueConfig where
  baseStreamName := "logs:ingest"
  baseConsumerGroup := "log-workers"
  redisMaxRetries := 3
  maxLen := 10000
  dlqStreamName := "logs:dlq"
  dlqMaxLen := 1000
  partitionCount := 2
  partitionID := 0

/-- `GetDefaults`. -/
def getDefaults : Config where
  ingestion := { maxQueueDepth := 1000, throttler := defaultThrottler }
  worker := defaultWorker
  registry :=
    { heartbeatInterval := 10 * second
      deadThreshold := 30 * second
      pollInterval := 15 * second
      controlPlanePoll := 15 * second
      lockTTL := 60 * second }
  server :=
    { port := "8080"
      readTimeout := 10 * second
      writeTimeout := 10 * second
      shutdownTimeout := 30 * second }
  redis := { host := "localhost", port := "6379", db := 0, poolSize := 10 }
  queue := defaultQueue
  postgres :=
    { host := "localhost"
      port := "5432"
      database := "logdb"
      user := "postgres"
      sslMode := "disable"
      maxConns := 25
      minConns := 5 }
  observability :=
    { logLevel := "info"
      logFormat := "json"
      metricsEnabled := true
      metricsPort := "9090"
      tracingEnabled := false
      -- the binary fraction nearest to 0.1
      tracingSampleRate := 3602879701896397 / 36028797018963968
      healthCheckTimeout := 5 * second }

end Config

end LogPipeline
