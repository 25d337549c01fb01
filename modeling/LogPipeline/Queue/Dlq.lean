/-
  LogPipeline.Queue.Dlq

  `internal/queue/dlq.go`: the dead letter queue, the operations the worker and
  an operator use.  The two ends of a listing are entry ids; `-` is the id `0-0`.
-/

import LogPipeline.Queue.Producer

namespace LogPipeline.Queue

open Conc Go Redis Cluster

/-- `DLQ`. -/
structure DLQ where
  streamName : String
  maxLen : Int64

namespace DLQ

/-- `Send`. -/
def send (d : DLQ) (ctx : Ctx) (entry : DLQEntry) : Program (Except String StreamID) := do
  match dlqEntryStruct.marshal entry with
  | .error err => return .error ("failed to marshal DLQ entry: " ++ err)
  | .ok entryJSON =>
      match ← redis ctx (.xAdd d.streamName d.maxLen [("entry", entryJSON)]) with
      | .error err => return .error ("failed to add to DLQ: " ++ err.text)
      | .ok messageID => return .ok messageID

/-- Read the `entry` field of a stream message. -/
def parseEntry (v : Values) : Except String DLQEntry :=
  match v.get "entry" with
  | none => .error "invalid DLQ entry format"
  | some text =>
      match dlqEntryStruct.unmarshal .zero text with
      | .error err => .error ("failed to unmarshal DLQ entry: " ++ err.text)
      | .ok entry => .ok entry

/-- `Get`. -/
def get (d : DLQ) (ctx : Ctx) (messageID : StreamID) : Program (Except String DLQEntry) := do
  match ← redis ctx (.xRange d.streamName messageID messageID) with
  | .error err => return .error ("failed to get DLQ entry: " ++ err.text)
  | .ok [] => return .error ("DLQ entry not found: " ++ messageID.toString)
  | .ok (msg :: _) => return parseEntry msg.values

/-- What `List` keeps of the messages it read: at most `count` of them if that is
    positive, and of these the ones with a readable entry. -/
def listed (messages : List (Entry Values)) (count : Int64) : List DLQEntry :=
  let messages :=
    if 0 < count ∧ count.toInt < messages.length then messages.take count.toInt.toNat
    else messages
  messages.filterMap fun msg => (parseEntry msg.values).toOption

/-- `List`. -/
def list (d : DLQ) (ctx : Ctx) (start stop : StreamID) (count : Int64) :
    Program (Except String (List DLQEntry)) := do
  match ← redis ctx (.xRange d.streamName start stop) with
  | .error err => return .error ("failed to list DLQ entries: " ++ err.text)
  | .ok messages => return .ok (listed messages count)

/-- `Count`. -/
def count (d : DLQ) (ctx : Ctx) : Program (Except String Nat) := do
  match ← redis ctx (.xLen d.streamName) with
  | .error err => return .error ("failed to get DLQ count: " ++ err.text)
  | .ok count => return .ok count

/-- `Delete`. -/
def delete (d : DLQ) (ctx : Ctx) (messageID : StreamID) : Program (Except String Unit) := do
  match ← redis ctx (.xDel d.streamName messageID) with
  | .error err => return .error ("failed to delete DLQ entry: " ++ err.text)
  | .ok deleted =>
      if deleted = 0 then return .error ("DLQ entry not found: " ++ messageID.toString)
      else return .ok ()

/-- The envelope `Requeue` puts back: retry count and error are reset. -/
def resetForRequeue (envelope : JobEnvelope) : JobEnvelope :=
  { envelope with retryCount := 0, lastError := "" }

/-- `Requeue`.  `none` is the nil dereference of an entry without job data. -/
def requeue (d : DLQ) (ctx : Ctx) (messageID : StreamID) (mainStreamName : String)
    (maxLen : Int64) : Program (Option (Except String Unit)) := do
  match ← d.get ctx messageID with
  | .error err => return some (.error ("failed to get DLQ entry: " ++ err))
  | .ok entry =>
      match entry.jobData with
      | none => return none
      | some jobData =>
          match buildXAddArgs mainStreamName maxLen (resetForRequeue jobData) with
          | .error err => return some (.error ("failed to build requeue args: " ++ err))
          | .ok args =>
              match ← redis ctx (.xAdd args.stream args.maxLen args.values) with
              | .error err =>
                  return some (.error ("failed to requeue to main stream: " ++ err.text))
              | .ok _ =>
                  -- a failed delete is only logged: the job is already requeued
                  let _ ← d.delete ctx messageID
                  return some (.ok ())

end DLQ

end LogPipeline.Queue
