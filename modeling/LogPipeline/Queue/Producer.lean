/-
  LogPipeline.Queue.Producer

  `internal/queue/producer.go` and the message builders of
  `internal/queue/message.go`.
-/

import LogPipeline.Config.Basic
import LogPipeline.Cluster.Effects

namespace LogPipeline.Queue

open Conc Go Redis Cluster

-- ============================================================================
-- Building messages
-- ============================================================================

/-- `buildJobEnvelope`. -/
def buildJobEnvelope (logEvent : LogEvent) (maxRetries : Int64) : Program JobEnvelope := do
  let id ← call .uuid
  let now ← call .now
  return {
    jobID := id
    data := some logEvent
    enqueuedAt := now.unix
    retryCount := 0
    maxRetries := maxRetries
    eventType := "log_event"
    lastError := "" }

/-- The arguments of an XADD with an automatic id and approximate trimming. -/
structure XAddArgs where
  stream : String
  maxLen : Int64
  values : Values

/-- `buildXAddArgs`. -/
def buildXAddArgs (streamName : String) (maxLen : Int64) (envelope : JobEnvelope) :
    Except String XAddArgs :=
  match envelopeStruct.marshal envelope with
  | .error err => .error ("failed to marshal job envelope: " ++ err)
  | .ok text => .ok { stream := streamName, maxLen := maxLen, values := [("job", text)] }

-- ============================================================================
-- Partitions
-- ============================================================================

/-- `fnv.New32a` over the bytes of a string. -/
def fnv32a (s : String) : UInt32 :=
  s.toUTF8.toList.foldl (fun h b => (h ^^^ b.toUInt32) * 16777619) 2166136261

/-- `partitionFor`. -/
def partitionFor (cfg : QueueConfig) (routingKey : String) : Int64 :=
  Int64.ofNat (fnv32a routingKey).toNat % cfg.partitionCount

/-- `streamNameFor`. -/
def streamNameFor (cfg : QueueConfig) (routingKey : String) : String :=
  cfg.baseStreamName ++ ":partition:" ++ formatInt (partitionFor cfg routingKey)

-- ============================================================================
-- Commands
-- ============================================================================

/-- `Enqueue`. -/
def enqueue (cfg : QueueConfig) (ctx : Ctx) (logEvent : LogEvent) :
    Program (Except String StreamID) := do
  let streamName := streamNameFor cfg logEvent.service
  let envelope ← buildJobEnvelope logEvent cfg.redisMaxRetries
  match buildXAddArgs streamName cfg.maxLen envelope with
  | .error err => return .error err
  | .ok args =>
      match ← redis ctx (.xAdd args.stream args.maxLen args.values) with
      | .error err => return .error ("failed to add to stream: " ++ err.text)
      | .ok messageID => return .ok messageID

/-- The first loop of `EnqueueBatch`: the arguments of every XADD, or the error of
    the first event that has none. -/
def buildBatch (cfg : QueueConfig) : List LogEvent → Program (Except String (List XAddArgs))
  | [] => return .ok []
  | logEvent :: rest => do
      let envelope ← buildJobEnvelope logEvent cfg.redisMaxRetries
      match buildXAddArgs (streamNameFor cfg logEvent.service) cfg.maxLen envelope with
      | .error err => return .error err
      | .ok args =>
          match ← buildBatch cfg rest with
          | .error err => return .error err
          | .ok batch => return .ok (args :: batch)

/-- `pipe.Exec`: the server executes the commands one after the other, and each
    succeeds or fails on its own. -/
def execPipeline (ctx : Ctx) : List XAddArgs → Program (List (Except RedisError StreamID))
  | [] => return []
  | args :: rest => do
      let reply ← redis ctx (.xAdd args.stream args.maxLen args.values)
      let replies ← execPipeline ctx rest
      return reply :: replies

/-- `EnqueueBatch`.  The error of a pipeline is that of its first failed command. -/
def enqueueBatch (cfg : QueueConfig) (ctx : Ctx) (logEvents : List LogEvent) :
    Program (Except String (List StreamID)) :=
  if logEvents = [] then return .ok []
  else do
    match ← buildBatch cfg logEvents with
    | .error err => return .error err
    | .ok batch =>
        let replies ← execPipeline ctx batch
        match replies.mapM id with
        | .error err => return .error ("failed to execute batch: " ++ err.text)
        | .ok messageIDs => return .ok messageIDs

/-- The loop of `StreamLength` over the partitions `i, i + 1, ..`, `n` of them. -/
def streamLengthFrom (cfg : QueueConfig) (ctx : Ctx) :
    Nat → Int64 → Int64 → Program (Except String Int64)
  | 0, _, total => return .ok total
  | n + 1, i, total => do
      match ← redis ctx (.xLen (cfg.baseStreamName ++ ":partition:" ++ formatInt i)) with
      | .error err =>
          return .error ("failed to get stream length for partition " ++ formatInt i ++ ": " ++
            err.text)
      | .ok length => streamLengthFrom cfg ctx n (i + 1) (total + Int64.ofNat length)

/-- `StreamLength`: total length across all partitions. -/
def streamLength (cfg : QueueConfig) (ctx : Ctx) : Program (Except String Int64) :=
  streamLengthFrom cfg ctx cfg.partitionCount.toInt.toNat 0 0

end LogPipeline.Queue
