/-
  LogPipeline.Queue.Message

  Log events, job envelopes and dead letter entries, with their JSON forms
  (`pkg/models/log_event.go`, `internal/queue/types.go`,
  `internal/queue/message.go`).

  - `JobEnvelope.encode_ok_iff`: an envelope can be marshalled if the metadata and the
    timestamp of its event can.  An event that was decoded may have a timestamp that cannot.
  - `envelopeStruct_lawful`, `dlqEntryStruct_lawful`: what is marshalled into a
    stream field says the same when it is read.
-/

import LogPipeline.Go.Time

namespace LogPipeline.Queue

open Go

-- ============================================================================
-- The types
-- ============================================================================

/-- The metadata of a log event: a map with values of the types that decoding gives, or one
    built in Go with a value that `json.Marshal` refuses. -/
inductive Metadata where
  | map (m : JsonMap)
  | unencodable (err : String)

/-- `models.LogEvent`. -/
structure LogEvent where
  timestamp : Timestamp
  level : String
  service : String
  message : String
  metadata : Metadata
  traceID : String

/-- `JobEnvelope`: a log event with its queue bookkeeping. -/
structure JobEnvelope where
  jobID : String
  data : Option LogEvent
  enqueuedAt : Int64
  retryCount : Int64
  maxRetries : Int64
  eventType : String
  lastError : String

/-- `DLQEntry`: a failed job in the dead letter queue. -/
structure DLQEntry where
  originalStreamID : String
  jobData : Option JobEnvelope
  failureReason : String
  sentToDLQAt : Int64

def LogEvent.zero : LogEvent := ⟨.zero, "", "", "", .map .empty, ""⟩

def JobEnvelope.zero : JobEnvelope := ⟨"", none, 0, 0, 0, "", ""⟩

def DLQEntry.zero : DLQEntry := ⟨"", none, "", 0⟩

-- ============================================================================
-- JSON
-- ============================================================================

/-- The `metadata` field, with `omitempty`. -/
def metadataField : Go.Field LogEvent where
  name := "metadata"
  enc ev :=
    match ev.metadata with
    | .map m =>
        .ok (if m.members = [] then none else some (.obj (Value.encodeMembers m.members)))
    | .unencodable err => .error err
  dec
    | .null, ev => .ok { ev with metadata := .map .empty }
    | .obj kvs, ev =>
        match Value.decodeMembers kvs, ev.metadata with
        | .error err, _ => .error err
        | .ok ms, .map m => .ok { ev with metadata := .map (m.insertAll ms) }
        | .ok ms, .unencodable _ => .ok { ev with metadata := .map (JsonMap.empty.insertAll ms) }
    | j, _ => .error (.mismatch j.kind "map[string]interface {}")

def logEventStruct : Struct LogEvent where
  goType := "models.LogEvent"
  fields :=
    [.time "timestamp" (·.timestamp) (fun v ev => { ev with timestamp := v }),
     .string "level" (·.level) (fun v ev => { ev with level := v }),
     .string "service" (·.service) (fun v ev => { ev with service := v }),
     .string "message" (·.message) (fun v ev => { ev with message := v }),
     metadataField,
     .stringOmitEmpty "trace_id" (·.traceID) (fun v ev => { ev with traceID := v })]
  distinct := by decide +kernel

def envelopeStruct : Struct JobEnvelope where
  goType := "queue.JobEnvelope"
  fields :=
    [.string "job_id" (·.jobID) (fun v e => { e with jobID := v }),
     .ptr "data" logEventStruct .zero (·.data) (fun v e => { e with data := v }),
     .int64 "enqueued_at" "int64" (·.enqueuedAt) (fun v e => { e with enqueuedAt := v }),
     .int64 "retry_count" "int" (·.retryCount) (fun v e => { e with retryCount := v }),
     .int64 "max_retries" "int" (·.maxRetries) (fun v e => { e with maxRetries := v }),
     .string "event_type" (·.eventType) (fun v e => { e with eventType := v }),
     .stringOmitEmpty "last_error" (·.lastError) (fun v e => { e with lastError := v })]
  distinct := by decide +kernel

def dlqEntryStruct : Struct DLQEntry where
  goType := "queue.DLQEntry"
  fields :=
    [.string "original_stream_id" (·.originalStreamID)
       (fun v e => { e with originalStreamID := v }),
     .ptr "job_data" envelopeStruct .zero (·.jobData) (fun v e => { e with jobData := v }),
     .string "failure_reason" (·.failureReason) (fun v e => { e with failureReason := v }),
     .int64 "sent_to_dlq_at" "int64" (·.sentToDLQAt) (fun v e => { e with sentToDLQAt := v })]
  distinct := by decide +kernel

-- ============================================================================
-- Which values can be marshalled
-- ============================================================================

/-- The metadata and the timestamp can be marshalled. -/
def LogEvent.Encodable (ev : LogEvent) : Prop :=
  (∃ m, ev.metadata = .map m) ∧ ev.timestamp.ZoneInRange

def JobEnvelope.Encodable (e : JobEnvelope) : Prop := ∀ ev, e.data = some ev → ev.Encodable

def DLQEntry.Encodable (d : DLQEntry) : Prop := ∀ e, d.jobData = some e → e.Encodable

theorem LogEvent.encode_ok_iff {ev : LogEvent} :
    (∃ j, logEventStruct.encode ev = .ok j) ↔ ev.Encodable := by
  rw [Struct.encode_ok_iff]
  simp only [logEventStruct, List.forall_mem_cons, Field.string_enc_ok,
    Field.stringOmitEmpty_enc_ok, Field.time_enc_ok, true_and, and_true, List.not_mem_nil,
    false_implies, implies_true]
  unfold LogEvent.Encodable
  rw [and_comm]
  cases hm : ev.metadata with
  | map m => simp [metadataField, hm]
  | unencodable err => simp [metadataField, hm]

theorem JobEnvelope.encode_ok_iff {e : JobEnvelope} :
    (∃ j, envelopeStruct.encode e = .ok j) ↔ e.Encodable := by
  rw [Struct.encode_ok_iff]
  simp only [envelopeStruct, List.forall_mem_cons, Field.string_enc_ok,
    Field.stringOmitEmpty_enc_ok, Field.int64_enc_ok, Field.ptr_enc_ok, true_and, and_true,
    List.not_mem_nil, false_implies, implies_true, LogEvent.encode_ok_iff]
  rfl

theorem JobEnvelope.marshal_ok_iff {e : JobEnvelope} :
    (∃ text, envelopeStruct.marshal e = .ok text) ↔ e.Encodable := by
  rw [← JobEnvelope.encode_ok_iff]
  simp [Struct.marshal_eq_ok]

theorem DLQEntry.encode_ok_iff {d : DLQEntry} :
    (∃ j, dlqEntryStruct.encode d = .ok j) ↔ d.Encodable := by
  rw [Struct.encode_ok_iff]
  simp only [dlqEntryStruct, List.forall_mem_cons, Field.string_enc_ok, Field.int64_enc_ok,
    Field.ptr_enc_ok, true_and, and_true, List.not_mem_nil, false_implies, implies_true,
    JobEnvelope.encode_ok_iff]
  rfl

theorem DLQEntry.marshal_ok_iff {d : DLQEntry} :
    (∃ text, dlqEntryStruct.marshal d = .ok text) ↔ d.Encodable := by
  rw [← DLQEntry.encode_ok_iff]
  simp [Struct.marshal_eq_ok]

-- ============================================================================
-- Round trips
-- ============================================================================

/-- Metadata is restored into an event that has none yet. -/
theorem restore_metadata {x y : LogEvent} {fs : List (Go.Field LogEvent)} {m : JsonMap}
    (hx : x.metadata = .map m) (hy : y.metadata = .map .empty) :
    Struct.restore x y (metadataField :: fs) =
      Struct.restore x { y with metadata := .map m } fs := by
  by_cases h : m.members = []
  · have hm : m = .empty := JsonMap.ext h
    have hy' : { y with metadata := .map m } = y := by
      rw [hm, ← hy]
    simp [Struct.restore, metadataField, hx, h, hy']
  · simp [Struct.restore, metadataField, hx, h, hy, Value.decodeMembers_encodeMembers,
      JsonMap.insertAll_empty]

theorem logEventStruct_lawful : logEventStruct.Lawful .zero := by
  intro x j h
  obtain ⟨⟨m, hm⟩, hzone⟩ := LogEvent.encode_ok_iff.mp ⟨j, h⟩
  rw [Struct.decode_encode _ h]
  unfold logEventStruct
  rw [Field.restore_time _ _ _ _ hzone]
  simp only [Field.restore_string]
  rw [restore_metadata hm rfl, Field.restore_stringOmitEmpty, Struct.restore_nil]
  obtain ⟨ts, lv, sv, msg, md, tr⟩ := x
  simp only at hm
  subst hm
  by_cases htr : tr = "" <;> simp [LogEvent.zero, htr]

theorem envelopeStruct_lawful : envelopeStruct.Lawful .zero := by
  intro x j h
  have henc := JobEnvelope.encode_ok_iff.mp ⟨j, h⟩
  rw [Struct.decode_encode _ h]
  unfold envelopeStruct
  rw [Field.restore_string, Field.restore_ptr _ _ _ _ logEventStruct_lawful _ _ rfl
    (fun ev hev => LogEvent.encode_ok_iff.mpr (henc ev hev))]
  simp only [Field.restore_int64, Field.restore_string, Field.restore_stringOmitEmpty,
    Struct.restore_nil]
  by_cases hl : x.lastError = ""
  · obtain ⟨jid, dt, ea, rc, mr, et, le⟩ := x
    simp only at hl
    subst hl
    rfl
  · rw [if_neg hl]

theorem dlqEntryStruct_lawful : dlqEntryStruct.Lawful .zero := by
  intro x j h
  have henc := DLQEntry.encode_ok_iff.mp ⟨j, h⟩
  rw [Struct.decode_encode _ h]
  unfold dlqEntryStruct
  rw [Field.restore_string, Field.restore_ptr _ _ _ _ envelopeStruct_lawful _ _ rfl
    (fun e he => JobEnvelope.encode_ok_iff.mpr (henc e he))]
  simp only [Field.restore_string, Field.restore_int64, Struct.restore_nil]

end LogPipeline.Queue
