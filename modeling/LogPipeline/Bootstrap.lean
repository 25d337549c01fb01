/-
  LogPipeline.Bootstrap

  How the processes are wired (`internal/bootstrap`, `cmd/worker/main.go`):
  partition names, the creation of streams and groups, and the components a
  process gets from its configuration.
-/

import LogPipeline.Config.Validator
import LogPipeline.Worker.Worker

namespace LogPipeline.Bootstrap

open Conc Go Redis Cluster Queue

/-- `PartitionStreamName`. -/
def partitionStreamName (baseStream : String) (partitionID : Int64) : String :=
  baseStream ++ ":partition:" ++ formatInt partitionID

/-- `PartitionGroupName`. -/
def partitionGroupName (baseGroup : String) (partitionID : Int64) : String :=
  baseGroup ++ "-" ++ formatInt partitionID

/-- The loop of `SetupPartitions` over the partitions `i, i + 1, ..`, `n` of
    them. -/
def setupPartitionsFrom (cfg : QueueConfig) (ctx : Ctx) :
    Nat → Int64 → Program (Except String Unit)
  | 0, _ => return .ok ()
  | n + 1, i => do
      let streamName := partitionStreamName cfg.baseStreamName i
      let groupName := partitionGroupName cfg.baseConsumerGroup i
      match ← redis ctx (.xGroupCreateMkStream streamName groupName) with
      | .error err =>
          -- a group that exists already is fine
          if contains err.text "BUSYGROUP" then setupPartitionsFrom cfg ctx n (i + 1)
          else
            return .error ("failed to create partition " ++ formatInt i ++ " (stream=" ++
              streamName ++ " group=" ++ groupName ++ "): " ++ err.text)
      | .ok _ => setupPartitionsFrom cfg ctx n (i + 1)

/-- `SetupPartitions`. -/
def setupPartitions (cfg : QueueConfig) (ctx : Ctx) : Program (Except String Unit) :=
  setupPartitionsFrom cfg ctx cfg.partitionCount.toInt.toNat 0

/-- `SetupDLQ`. -/
def setupDLQ (cfg : QueueConfig) : DLQ := ⟨cfg.dlqStreamName, cfg.dlqMaxLen⟩

/-- `SetupConsumer`. -/
def setupConsumer (cfg : QueueConfig) (dlq : DLQ) (workerID : String) : Consumer where
  streamName := partitionStreamName cfg.baseStreamName cfg.partitionID
  consumerGroup := partitionGroupName cfg.baseConsumerGroup cfg.partitionID
  consumerName := workerID
  dlq := some dlq

/-- The worker `cmd/worker` builds, with the given processor. -/
def setupWorker (cfg : Config) (run : Nat) (workerID : String) (processor : Processor) :
    Worker where
  run := run
  consumer := setupConsumer cfg.queue (setupDLQ cfg.queue) workerID
  processor := processor
  config := cfg.worker
  workerID := workerID
  partitionID := cfg.queue.partitionID

/-- The stream the producer writes to is the partition stream of the bootstrap
    code. -/
theorem streamNameFor_eq (cfg : QueueConfig) (routingKey : String) :
    streamNameFor cfg routingKey =
      partitionStreamName cfg.baseStreamName (partitionFor cfg routingKey) := rfl

/-- Every routing key is routed to a partition of an accepted configuration. -/
theorem partitionFor_range {cfg : QueueConfig} (h : cfg.Ok) (routingKey : String) :
    0 ≤ partitionFor cfg routingKey ∧ partitionFor cfg routingKey < cfg.partitionCount := by
  have hcount := Int64.lt_iff_toInt_lt.mp h.partitionCount
  have hzero : (0 : Int64).toInt = 0 := rfl
  rw [hzero] at hcount
  have hhash : (Int64.ofNat (fnv32a routingKey).toNat).toInt = (fnv32a routingKey).toNat := by
    have := (fnv32a routingKey).toNat_lt
    rw [Int64.toInt_ofNat_of_lt (by omega)]
  rw [Int64.le_iff_toInt_le, Int64.lt_iff_toInt_lt, hzero]
  unfold partitionFor
  rw [Int64.toInt_mod, hhash]
  have hnonneg : (0 : Int) ≤ (fnv32a routingKey).toNat := Int.natCast_nonneg _
  rw [Int.tmod_eq_emod_of_nonneg hnonneg]
  exact ⟨Int.emod_nonneg _ (by omega), Int.emod_lt_of_pos _ hcount⟩

end LogPipeline.Bootstrap
