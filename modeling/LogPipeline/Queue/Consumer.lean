/-
  LogPipeline.Queue.Consumer

  `internal/queue/consumer.go`: reading, acknowledging, retrying and reclaiming
  messages of one partition.

  The cursor loop of `ReclaimStale` takes the number of pages it may still read;
  `none` is a loop that is not done when they are used up.
-/

import LogPipeline.Queue.Dlq

namespace LogPipeline.Queue

open Conc Go Redis Cluster

/-- `Consumer`. -/
structure Consumer where
  streamName : String
  consumerGroup : String
  consumerName : String
  dlq : Option DLQ

namespace Consumer

/-- The `job` field of a message as an envelope. -/
def parseJob (v : Values) : Except String JobEnvelope :=
  match v.get "job" with
  | none => .error "message missing data field"
  | some text =>
      match envelopeStruct.unmarshal .zero text with
      | .error err => .error ("failed to unmarshal: " ++ err.text)
      | .ok envelope => .ok envelope

/-- `parseMessage`: the envelope and the message id, or an error. -/
def parseMessage (msg : Entry Values) : Except String (JobEnvelope × StreamID) :=
  (parseJob msg.values).map fun envelope => (envelope, msg.id)

/-- `Consume`; `none` when no message arrived in time. -/
def consume (c : Consumer) (ctx : Ctx) (blockDuration : Duration) :
    Program (Except String (Option (JobEnvelope × StreamID))) := do
  match ← redis ctx (.xReadGroup c.streamName c.consumerGroup c.consumerName blockDuration) with
  | .error .nil => return .ok none
  | .error err => return .error ("failed to read from stream: " ++ err.text)
  | .ok [] => return .ok none
  | .ok (msg :: _) => return (parseMessage msg).map some

/-- `Ack`. -/
def ack (c : Consumer) (ctx : Ctx) (messageID : StreamID) : Program (Except String Unit) := do
  match ← redis ctx (.xAck c.streamName c.consumerGroup messageID) with
  | .error err => return .error ("failed to ack: " ++ err.text)
  | .ok _ => return .ok ()

/-- The envelope after a failed attempt. -/
def failedOnce (envelope : JobEnvelope) (lastError : String) : JobEnvelope :=
  { envelope with retryCount := envelope.retryCount + 1, lastError := lastError }

/-- The part of `Retry` that gives the job up: send it to the DLQ, if there is
    one, and go on to the acknowledgement whatever happens. -/
def giveUp (c : Consumer) (ctx : Ctx) (envelope : JobEnvelope) (messageID : StreamID)
    (lastError : String) : Program Unit := do
  match c.dlq with
  | none => return ()
  | some dlq =>
      let now ← call .now
      let _ ← dlq.send ctx {
        originalStreamID := messageID.toString
        jobData := some envelope
        failureReason := lastError
        sentToDLQAt := now.unix }
      return ()

/-- `Retry`. -/
def retry (c : Consumer) (ctx : Ctx) (envelope : JobEnvelope) (messageID : StreamID)
    (lastError : String) : Program (Except String Unit) := do
  let envelope := failedOnce envelope lastError
  if envelope.retryCount ≥ envelope.maxRetries then
    c.giveUp ctx envelope messageID lastError
    c.ack ctx messageID
  else
    -- no trimming on a retry
    match buildXAddArgs c.streamName 0 envelope with
    | .error err => return .error ("failed to build retry args: " ++ err)
    | .ok args =>
        match ← redis ctx (.xAdd args.stream args.maxLen args.values) with
        | .error err => return .error ("failed to re-enqueue: " ++ err.text)
        | .ok _ => c.ack ctx messageID

/-- The messages of one page that parse; the others are logged and skipped. -/
def parsed (msgs : List (Entry Values)) : List (JobEnvelope × StreamID) :=
  msgs.filterMap fun msg => (parseMessage msg).toOption

/-- The cursor loop of `ReclaimStale`, from a cursor and with what was claimed so
    far. -/
def reclaimPages (c : Consumer) (run : Nat) (idleTime : Duration) (maxBatch : Int64) :
    Nat → StreamID → List (JobEnvelope × StreamID) →
      Program (Option (List (JobEnvelope × StreamID) × Option String))
  | 0, _, _ => return none
  | pages + 1, cursor, all => do
      match ← redis (.worker run) (.xAutoClaim c.streamName c.consumerGroup c.consumerName
        idleTime cursor maxBatch) with
      | .error .nil => return some (all, none)
      | .error err => return some (all, some ("failed to reclaim stale messages: " ++ err.text))
      | .ok (messages, nextCursor) =>
          let all := all ++ parsed messages
          if nextCursor = .zero then return some (all, none)
          else if ← call (.ctxDone run) then return some (all, some "context canceled")
          else reclaimPages c run idleTime maxBatch pages nextCursor all

/-- `ReclaimStale`: the claimed messages, with an error if a page failed. -/
def reclaimStale (c : Consumer) (run : Nat) (idleTime : Duration) (maxBatch : Int64)
    (pages : Nat) : Program (Option (List (JobEnvelope × StreamID) × Option String)) :=
  c.reclaimPages run idleTime maxBatch pages .zero []

/-- The age in seconds of the message with the given id, by its timestamp part;
    zero if that does not parse. -/
def ageOf (lower : String) (now : Instant) : Int64 :=
  match split lower '-' with
  | [] => 0
  | ms :: _ =>
      match parseInt ms with
      | none => 0
      | some timestampMs => (now.unixMilli - timestampMs) / 1000

/-- `GetPendingInfo`: how many messages are pending and the age of the oldest. -/
def getPendingInfo (c : Consumer) (ctx : Ctx) : Program (Except String (Int64 × Int64)) := do
  match ← redis ctx (.xPending c.streamName c.consumerGroup) with
  | .error err =>
      if err = .nil ∨ err.text = "NOGROUP" then return .ok (0, 0)
      else return .error ("failed to get pending info: " ++ err.text)
  | .ok info =>
      let count := Int64.ofNat info.count
      if count > 0 ∧ info.lower ≠ "" then
        let now ← call .now
        return .ok (count, ageOf info.lower now)
      else return .ok (count, 0)

end Consumer

end LogPipeline.Queue
