/-
  LogPipeline.Cluster.Protocol

  The protocol of the pipeline, as a condition on its log.

  A log is valid if every event in it was due when it was logged: for the party
  that logged it, given what this party had logged before (`Deployment.May`), and
  for the server, given all that had been logged (`Served`).  This is the abstract
  model of the system: it has no programs, no streams and no keys.
  `LogPipeline.Cluster.Refinement` proves that every log of the deployed system
  is valid; the results about jobs are then proved from validity.
-/

import LogPipeline.Cluster.World

namespace LogPipeline.Cluster

open Conc Go Redis Queue Bootstrap

-- ============================================================================
-- Vocabulary
-- ============================================================================

/-- What a task has logged, newest first. -/
def Log.own (h : Log) (t : Nat) : List Ev :=
  (h.filter fun e => decide (e.tid = some t)).map (·.ev)

/-- An XADD that was executed. -/
def Ev.Adds (ev : Ev) (stream : String) (id : StreamID) (v : Values) : Prop :=
  ∃ ctx maxLen now, ev = .cmd ctx (.xAdd stream maxLen v) (.ok id) now

/-- An XACK that was executed. -/
def Ev.Acks (ev : Ev) (stream group : String) (id : StreamID) : Prop :=
  ∃ ctx n now, ev = .cmd ctx (.xAck stream group id) (.ok n) now

/-- A SETNX that set the key, with the time at which the key expires. -/
def Ev.Claims (ev : Ev) (key : String) (expires : Option Nat) : Prop :=
  ∃ ctx value ttl now, ev = .cmd ctx (.setNX key value ttl) (.ok true) now ∧
    expires = expiry now ttl

def Log.Added (h : Log) (stream : String) (id : StreamID) (v : Values) : Prop :=
  ∃ e ∈ h, e.ev.Adds stream id v

/-- The values of a stream entry that holds a job. -/
def jobValues (text : Text) : Values := [("job", text)]

/-- The values of a dead letter entry. -/
def entryValues (text : Text) : Values := [("entry", text)]

/-- The job that an entry holds.  `parseMessage` reads it unless it is nested too deep. -/
def Values.job (v : Values) : Option JobEnvelope :=
  (v.get "job").bind fun text => (envelopeStruct.read .zero text).toOption

/-- The dead letter that an entry holds.  `Get` reads it unless it is nested too deep. -/
def Values.letter (v : Values) : Option DLQEntry :=
  (v.get "entry").bind fun text => (dlqEntryStruct.read .zero text).toOption

namespace Delivery

/-- The envelope after the failed attempt. -/
def failed (d : Delivery) (err : String) : JobEnvelope := Consumer.failedOnce d.envelope err

/-- One more failure uses the retries up. -/
def Exhausted (d : Delivery) : Prop := d.envelope.retryCount + 1 ≥ d.envelope.maxRetries

instance (d : Delivery) : Decidable d.Exhausted :=
  inferInstanceAs (Decidable (d.envelope.retryCount + 1 ≥ d.envelope.maxRetries))

/-- The dead letter entry for the failed attempt. -/
def deadLetter (d : Delivery) (err : String) (now : Instant) : DLQEntry where
  originalStreamID := d.id.toString
  jobData := some (d.failed err)
  failureReason := err
  sentToDLQAt := now.unix

/-- The dedup key of the attempt. -/
def key (d : Delivery) : String := dedupKey d.envelope.jobID d.envelope.retryCount

end Delivery

namespace Deployment

variable (D : Deployment)

/-- The envelope `Enqueue` builds. -/
def newEnvelope (uuid : String) (ev : LogEvent) (now : Instant) : JobEnvelope where
  jobID := uuid
  data := some ev
  enqueuedAt := now.unix
  retryCount := 0
  maxRetries := D.cfg.queue.redisMaxRetries
  eventType := "log_event"
  lastError := ""

/-- The duplicate check of an attempt, with its reply. -/
def check (d : Delivery) (reply : Except RedisError Bool) (now : Nat) : Ev :=
  .cmd .background (.setNX d.key "1" D.cfg.worker.dedupTTL) reply now

/-- The acknowledgement of a delivery. -/
def ackCmd (d : Delivery) : Cmd := .xAck (D.stream d.run) (D.group d.run) d.id

/-- The re-enqueueing of a failed attempt. -/
def copyCmd (d : Delivery) (text : Text) : Cmd := .xAdd (D.stream d.run) 0 (jobValues text)

/-- The dead lettering of a failed attempt. -/
def buryCmd (text : Text) : Cmd := .xAdd D.dlq.streamName D.dlq.maxLen (entryValues text)

/-- The look-up of a dead letter entry, with its reply. -/
def fetch (id : StreamID) (reply : Except RedisError (List (Entry Values))) (now : Nat) : Ev :=
  .cmd .background (.xRange D.dlq.streamName id id) reply now

end Deployment

-- ============================================================================
-- Reading entries
-- ============================================================================

section

variable {v : Values} {text : Text} {e : JobEnvelope} {entry : DLQEntry}

theorem job_of_parseJob (h : Consumer.parseJob v = .ok e) : v.job = some e := by
  unfold Consumer.parseJob at h
  unfold Values.job
  cases hv : v.get "job" with
  | none => simp [hv] at h
  | some text =>
      simp only [hv] at h
      cases hu : envelopeStruct.unmarshal .zero text with
      | error err => simp [hu] at h
      | ok e' =>
          simp only [hu] at h
          cases h
          rw [Option.bind_some, Struct.read_of_unmarshal hu]
          rfl

theorem letter_of_parseEntry (h : DLQ.parseEntry v = .ok entry) : v.letter = some entry := by
  unfold DLQ.parseEntry at h
  unfold Values.letter
  cases hv : v.get "entry" with
  | none => simp [hv] at h
  | some text =>
      simp only [hv] at h
      cases hu : dlqEntryStruct.unmarshal .zero text with
      | error err => simp [hu] at h
      | ok entry' =>
          simp only [hu] at h
          cases h
          rw [Option.bind_some, Struct.read_of_unmarshal hu]
          rfl

/-- What is marshalled into the `job` field is the job of the entry. -/
theorem job_jobValues (ht : envelopeStruct.marshal e = .ok text) :
    (jobValues text).job = some e := by
  have hget : Values.get (jobValues text) "job" = some text := rfl
  rw [Values.job, hget, Option.bind_some, envelopeStruct_lawful.read_marshal ht]
  rfl

theorem letter_entryValues (ht : dlqEntryStruct.marshal entry = .ok text) :
    (entryValues text).letter = some entry := by
  have hget : Values.get (entryValues text) "entry" = some text := rfl
  rw [Values.letter, hget, Option.bind_some, dlqEntryStruct_lawful.read_marshal ht]
  rfl

theorem parseMessage_eq_ok {msg : Entry Values} {m : JobEnvelope × StreamID} :
    Consumer.parseMessage msg = .ok m ↔ Consumer.parseJob msg.values = .ok m.1 ∧ m.2 = msg.id := by
  unfold Consumer.parseMessage
  cases Consumer.parseJob msg.values with
  | error err => simp [Except.map]
  | ok e => simp [Except.map, Prod.ext_iff, eq_comm]

/-- Messages that do not parse are dropped; the others keep their order. -/
theorem parsed_ids_sublist (msgs : List (Entry Values)) :
    ((Consumer.parsed msgs).map (·.2)).Sublist (msgs.map (·.id)) := by
  unfold Consumer.parsed
  induction msgs with
  | nil => exact List.Sublist.refl _
  | cons msg msgs ih =>
      rw [List.filterMap_cons, List.map_cons]
      cases hp : Consumer.parseMessage msg with
      | error err => exact ih.cons _
      | ok m =>
          simp only [Except.toOption, List.map_cons, (parseMessage_eq_ok.mp hp).2]
          exact ih.cons_cons _

/-- `parseMessage` reads what was marshalled, if it is not nested too deep. -/
theorem parseJob_jobValues (ht : envelopeStruct.marshal e = .ok text)
    (hd : text.depth ≤ maxNestingDepth) : Consumer.parseJob (jobValues text) = .ok e := by
  have hget : Values.get (jobValues text) "job" = some text := rfl
  have hread := Struct.unmarshal_of_read hd (envelopeStruct_lawful.read_marshal ht)
  simp only [Consumer.parseJob, hget, hread]

theorem parseEntry_entryValues (ht : dlqEntryStruct.marshal entry = .ok text)
    (hd : text.depth ≤ maxNestingDepth) : DLQ.parseEntry (entryValues text) = .ok entry := by
  have hget : Values.get (entryValues text) "entry" = some text := rfl
  have hread := Struct.unmarshal_of_read hd (dlqEntryStruct_lawful.read_marshal ht)
  simp only [DLQ.parseEntry, hget, hread]

/-- A job entry is not a dead letter entry, and the other way round. -/
@[simp] theorem letter_jobValues : (jobValues text).letter = none := rfl

@[simp] theorem job_entryValues : (entryValues text).job = none := rfl

end

-- ============================================================================
-- What a party may log
-- ============================================================================

/-- What a delivery has logged when its `Process` returns, with the result. -/
inductive Processed (D : Deployment) (d : Delivery) : Option String → List Ev → Prop
  /-- The attempt was a duplicate. -/
  | duplicate (now : Nat) (hd : D.dedup = true) :
      Processed D d none [D.check d (.ok false) now, .started d]
  /-- The duplicate check failed. -/
  | unchecked (err : RedisError) (now : Nat) (hd : D.dedup = true) :
      Processed D d (some ("dedup check failed: " ++ err.text))
        [D.check d (.error err) now, .started d]
  /-- The downstream processor ran. -/
  | fresh (now : Nat) (res : Option String) (hd : D.dedup = true) :
      Processed D d res
        [.returned d.envelope res, .invoked d.envelope, D.check d (.ok true) now, .started d]
  /-- The downstream processor ran, with no duplicate check in front. -/
  | plain (res : Option String) (hd : D.dedup = false) :
      Processed D d res [.returned d.envelope res, .invoked d.envelope, .started d]

/-- What a delivery has logged when it acknowledges its message. -/
inductive Settled (D : Deployment) (d : Delivery) : List Ev → Prop
  | done {o : List Ev} (hp : Processed D d none o) : Settled D d o
  | copied {o : List Ev} {err : String} {text : Text} {id : StreamID} {now : Nat}
      (hp : Processed D d (some err) o) (hx : ¬ d.Exhausted)
      (ht : envelopeStruct.marshal (d.failed err) = .ok text) :
      Settled D d (.cmd (.worker d.run) (D.copyCmd d text) (.ok id) now :: o)
  | buried {o : List Ev} {err : String} {text : Text} {clock : Instant}
      {reply : Except RedisError StreamID} {now : Nat}
      (hp : Processed D d (some err) o) (hx : d.Exhausted)
      (ht : dlqEntryStruct.marshal (d.deadLetter err clock) = .ok text) :
      Settled D d (.cmd (.worker d.run) (D.buryCmd text) reply now :: o)

/-- What a delivery has logged when it is over: it has tried to acknowledge its
    message, or could not re-enqueue it. -/
inductive Ended (D : Deployment) (d : Delivery) : List Ev → Prop
  | acked {o : List Ev} {reply : Except RedisError Nat} {now : Nat} (hs : Settled D d o) :
      Ended D d (.cmd (.worker d.run) (D.ackCmd d) reply now :: o)
  | stuck {o : List Ev} {err : String} {text : Text} {e : RedisError} {now : Nat}
      (hp : Processed D d (some err) o) (hx : ¬ d.Exhausted)
      (ht : envelopeStruct.marshal (d.failed err) = .ok text) :
      Ended D d (.cmd (.worker d.run) (D.copyCmd d text) (.error e) now :: o)

/-- What a producer has logged between its uuids and its last XADD: `Enqueue` makes
    one uuid and adds one entry, `EnqueueBatch` makes all its uuids first. -/
def Producing (o : List Ev) : Prop :=
  ∀ ev ∈ o, (∃ uuid, ev = .minted uuid) ∨
    ∃ ctx stream maxLen v reply now, ev = .cmd ctx (.xAdd stream maxLen v) reply now

/-- The ways an entry comes to a stream. -/
inductive Origin (D : Deployment) : List Ev → Ctx → Cmd → Prop
  | enqueue {o : List Ev} {uuid : String} {ev : LogEvent} {clock : Instant} {text : Text}
      (ho : Producing o) (hm : .minted uuid ∈ o)
      (ht : envelopeStruct.marshal (D.newEnvelope uuid ev clock) = .ok text) :
      Origin D o .background
        (.xAdd (streamNameFor D.cfg.queue ev.service) D.cfg.queue.maxLen (jobValues text))
  | copy {d : Delivery} {err : String} {o : List Ev} {text : Text}
      (hp : Processed D d (some err) o) (hx : ¬ d.Exhausted)
      (ht : envelopeStruct.marshal (d.failed err) = .ok text) :
      Origin D o (.worker d.run) (D.copyCmd d text)
  | bury {d : Delivery} {err : String} {o : List Ev} {text : Text} {clock : Instant}
      (hp : Processed D d (some err) o) (hx : d.Exhausted)
      (ht : dlqEntryStruct.marshal (d.deadLetter err clock) = .ok text) :
      Origin D o (.worker d.run) (D.buryCmd text)
  | requeue {id : StreamID} {msg : Entry Values} {rest : List (Entry Values)} {now : Nat}
      {entry : DLQEntry} {job : JobEnvelope} {stream : String} {maxLen : Int64} {text : Text}
      (he : DLQ.parseEntry msg.values = .ok entry) (hj : entry.jobData = some job)
      (ht : envelopeStruct.marshal (DLQ.resetForRequeue job) = .ok text) :
      Origin D [D.fetch id (.ok (msg :: rest)) now] .background
        (.xAdd stream maxLen (jobValues text))

/-- An envelope that is added was marshalled. -/
theorem Origin.encodable {D : Deployment} {o : List Ev} {ctx : Ctx} {stream : String}
    {maxLen : Int64} {v : Values} {job : JobEnvelope} (ho : Origin D o ctx (.xAdd stream maxLen v))
    (hj : v.job = some job) : job.Encodable := by
  have hmarshal : ∀ {e : JobEnvelope} {text : Text}, envelopeStruct.marshal e = .ok text →
      v = jobValues text → job.Encodable := by
    rintro e text ht rfl
    rw [job_jobValues ht] at hj
    cases hj
    exact JobEnvelope.marshal_ok_iff.mp ⟨text, ht⟩
  generalize hc : Cmd.xAdd stream maxLen v = c at ho
  cases ho with
  | enqueue ho hm ht =>
      cases hc
      exact hmarshal ht rfl
  | copy hp hx ht =>
      cases hc
      exact hmarshal ht rfl
  | bury hp hx ht =>
      cases hc
      rw [job_entryValues] at hj
      cases hj
  | requeue he hj' ht =>
      cases hc
      exact hmarshal ht rfl

/-- A producer handles no delivery. -/
theorem Producing.not_started {o : List Ev} {d : Delivery} (ho : Producing o) :
    .started d ∉ o := by
  intro hd
  rcases ho _ hd with ⟨_, h⟩ | ⟨_, _, _, _, _, _, h⟩ <;> cases h

namespace Deployment

variable (D : Deployment)

/-- Not a task that handles a delivery. -/
def Idle (o : List Ev) : Prop := ∀ d, Ev.started d ∉ o

/-- A task that has logged `o` may issue the command. -/
def MayIssue (o : List Ev) (ctx : Ctx) : Cmd → Prop
  | .setNX key value ttl =>
      (D.dedup = true ∧ ctx = .background ∧ ∃ d, o = [.started d] ∧ key = d.key ∧ value = "1" ∧
        ttl = D.cfg.worker.dedupTTL) ∨
      (Idle o ∧ ∃ p, key = Worker.reclaimLockKey p)
  | .xAdd stream maxLen v => Origin D o ctx (.xAdd stream maxLen v)
  | .xAck stream group id =>
      ∃ d, ctx = .worker d.run ∧ Cmd.xAck stream group id = D.ackCmd d ∧ Settled D d o
  | .xDel stream id =>
      ctx = .background ∧ stream = D.dlq.streamName ∧
        ∃ main maxLen text new n msg rest now, o =
          [.cmd .background (.xAdd main maxLen (jobValues text)) (.ok new) n,
           D.fetch id (.ok (msg :: rest)) now]
  | .xRange stream lo hi =>
      o = [] ∧ ctx = .background ∧ stream = D.dlq.streamName ∧ lo = hi
  | .xReadGroup .. => Idle o
  | .xAutoClaim .. => Idle o
  | .xGroupCreateMkStream .. => Idle o
  | .xLen _ => Idle o
  | .xPending .. => Idle o

/-- A task that has logged `o` may log the event. -/
def May (o : List Ev) : Ev → Prop
  | .minted _ => ∀ ev ∈ o, ∃ uuid, ev = .minted uuid
  | .started _ => o = []
  | .cmd ctx c _ _ => D.MayIssue o ctx c
  | .invoked e =>
      ∃ d, e = d.envelope ∧
        ((D.dedup = true ∧ ∃ now, o = [D.check d (.ok true) now, .started d]) ∨
         (D.dedup = false ∧ o = [.started d]))
  | .returned e _ => ∃ o', o = .invoked e :: o'
  | .finished run => ∃ d, d.run = run ∧ Ended D d o
  | .cancelled _ => False
  | .noted (.enqueued id) =>
      ∃ stream maxLen v now uuid, o =
        [.cmd .background (.xAdd stream maxLen v) (.ok id) now, .minted uuid]
  | .noted (.requeued id stream) =>
      ∃ reply n maxLen text new n' msg rest now, o =
        [.cmd .background (.xDel D.dlq.streamName id) reply n,
         .cmd .background (.xAdd stream maxLen (jobValues text)) (.ok new) n',
         D.fetch id (.ok (msg :: rest)) now]

end Deployment

-- ============================================================================
-- What the server may answer
-- ============================================================================

/-- The delivery is of an entry that was added to the worker's stream. -/
def Held (D : Deployment) (h : Log) (d : Delivery) : Prop :=
  ∃ v, h.Added (D.stream d.run) d.id v ∧ Consumer.parseJob v = .ok d.envelope

/-- The server may give this reply at time `now`. -/
def ServedCmd (h : Log) (now : Nat) : (c : Cmd) → Except RedisError c.Reply → Prop
  | .setNX key _ _, .ok true =>
      -- every earlier claim of the key has expired
      ∀ e ∈ h, ∀ x, e.ev.Claims key x → ∃ y, x = some y ∧ y ≤ now
  | .setNX key _ _, .ok false =>
      ∃ e ∈ h, ∃ x, e.ev.Claims key x ∧ ∀ y, x = some y → now < y
  | .xAdd stream _ _, .ok id => ∀ id' v, h.Added stream id' v → id' < id
  | .xRange stream lo hi, .ok msgs =>
      ∀ m ∈ msgs, h.Added stream m.id m.values ∧ lo ≤ m.id ∧ m.id ≤ hi
  | .xReadGroup stream _ _ _, .ok msgs => ∀ m ∈ msgs, h.Added stream m.id m.values
  | .xAutoClaim stream _ _ _ _ _, .ok (msgs, _) => ∀ m ∈ msgs, h.Added stream m.id m.values
  | _, _ => True

/-- The surroundings of the tasks may bring the event about. -/
def Served (D : Deployment) (h : Log) : Ev → Prop
  | .cmd ctx c reply now =>
      (h.CtxDone ctx → reply = .error .context) ∧ ServedCmd h now c reply
  | .started d => Held D h d
  | _ => True

/-- Every event was due when it was logged. -/
def Valid (D : Deployment) : Log → Prop
  | [] => True
  | e :: h =>
      Valid D h ∧ Served D h e.ev ∧
      match e.tid with
      | some t => D.May (Log.own h t) e.ev
      | none => ∃ run, e.ev = .cancelled run

-- ============================================================================
-- Reading a valid log
-- ============================================================================

namespace Log

variable {h : Log} {t : Nat}

@[simp] theorem own_nil : own [] t = [] := rfl

theorem own_cons_self {e : Event Ev} (he : e.tid = some t) : own (e :: h) t = e.ev :: h.own t := by
  simp [own, he]

theorem own_cons_ne {e : Event Ev} (he : e.tid ≠ some t) : own (e :: h) t = h.own t := by
  simp [own, he]

theorem mem_own {ev : Ev} : ev ∈ h.own t ↔ ∃ e ∈ h, e.tid = some t ∧ e.ev = ev := by
  unfold own
  rw [List.mem_map]
  constructor
  · rintro ⟨e, he, rfl⟩
    obtain ⟨he, ht⟩ := List.mem_filter.mp he
    exact ⟨e, he, by simpa using ht, rfl⟩
  · rintro ⟨e, he, ht, rfl⟩
    exact ⟨e, List.mem_filter.mpr ⟨he, by simpa using ht⟩, rfl⟩

theorem own_mono {h' : Log} {ev : Ev} (hsub : ∀ e ∈ h, e ∈ h')
    (hev : ev ∈ h.own t) : ev ∈ h'.own t := by
  obtain ⟨x, hx, hxt, hxev⟩ := mem_own.mp hev
  exact mem_own.mpr ⟨x, hsub x hx, hxt, hxev⟩

/-- What is in the log before one of its events is in the log. -/
theorem mem_of_before {h₁ h₂ : Log} {e x : Event Ev} (hx : x ∈ h₂) : x ∈ h₁ ++ e :: h₂ :=
  List.mem_append_right _ (List.mem_cons_of_mem _ hx)

theorem own_append {h₁ : Log} : own (h₁ ++ h) t = h₁.own t ++ h.own t := by
  simp [own]

theorem Added.mono {h' : Log} {stream : String} {id : StreamID} {v : Values}
    (ha : h.Added stream id v) (hsub : ∀ e ∈ h, e ∈ h') : h'.Added stream id v := by
  obtain ⟨e, he, hev⟩ := ha
  exact ⟨e, hsub e he, hev⟩

theorem Cancelled.mono {h' : Log} {run : Nat} (hc : h.Cancelled run)
    (hsub : ∀ e ∈ h, e ∈ h') : h'.Cancelled run := by
  obtain ⟨e, he, hev⟩ := hc
  exact ⟨e, hsub e he, hev⟩

end Log

theorem Held.mono {D : Deployment} {h h' : Log} {d : Delivery} (hd : Held D h d)
    (hsub : ∀ e ∈ h, e ∈ h') : Held D h' d := by
  obtain ⟨v, ha, hp⟩ := hd
  exact ⟨v, ha.mono hsub, hp⟩

/-- A task's own log is made of steps it may take. -/
def Deployment.Trace (D : Deployment) : List Ev → Prop
  | [] => True
  | ev :: o => D.May o ev ∧ D.Trace o

namespace Valid

variable {D : Deployment} {h : Log}

theorem trace (hv : Valid D h) (t : Nat) : D.Trace (h.own t) := by
  induction h with
  | nil => trivial
  | cons e h ih =>
      obtain ⟨hv, -, hmay⟩ := hv
      by_cases he : e.tid = some t
      · rw [Log.own_cons_self he]
        simp only [he] at hmay
        exact ⟨hmay, ih hv⟩
      · rw [Log.own_cons_ne he]
        exact ih hv

/-- The part of a valid log up to one of its events is valid. -/
theorem upTo (hv : Valid D h) {e : Event Ev} (he : e ∈ h) :
    ∃ h₁ h₂, h = h₁ ++ e :: h₂ ∧ Valid D (e :: h₂) := by
  induction h with
  | nil => simp at he
  | cons x h ih =>
      rcases List.mem_cons.mp he with rfl | he
      · exact ⟨[], h, rfl, hv⟩
      · obtain ⟨h₁, h₂, rfl, hv'⟩ := ih hv.1 he
        exact ⟨x :: h₁, h₂, rfl, hv'⟩

/-- Of two events one is the earlier, unless they are the same. -/
theorem order (hv : Valid D h) {e e' : Event Ev} (he : e ∈ h) (he' : e' ∈ h) :
    e = e' ∨
    (∃ h₁ h₂, h = h₁ ++ e :: h₂ ∧ Valid D (e :: h₂) ∧ e' ∈ h₂) ∨
    (∃ h₁ h₂, h = h₁ ++ e' :: h₂ ∧ Valid D (e' :: h₂) ∧ e ∈ h₂) := by
  induction h with
  | nil => simp at he
  | cons x h ih =>
      rcases List.mem_cons.mp he with h1 | h1 <;> rcases List.mem_cons.mp he' with h2 | h2
      · exact Or.inl (h1.trans h2.symm)
      · subst h1
        exact Or.inr (Or.inl ⟨[], h, rfl, hv, h2⟩)
      · subst h2
        exact Or.inr (Or.inr ⟨[], h, rfl, hv, h1⟩)
      · rcases ih hv.1 h1 h2 with heq | ⟨h₁, h₂, rfl, hv', hm⟩ | ⟨h₁, h₂, rfl, hv', hm⟩
        · exact Or.inl heq
        · exact Or.inr (Or.inl ⟨x :: h₁, h₂, rfl, hv', hm⟩)
        · exact Or.inr (Or.inr ⟨x :: h₁, h₂, rfl, hv', hm⟩)

/-- An event other than a cancellation is a step some task may take. -/
theorem may {e : Event Ev} (hv : Valid D (e :: h)) (hc : ∀ run, e.ev ≠ .cancelled run) :
    ∃ t, e.tid = some t ∧ D.May (h.own t) e.ev := by
  obtain ⟨-, -, hmay⟩ := hv
  cases ht : e.tid with
  | none =>
      simp only [ht] at hmay
      obtain ⟨run, hrun⟩ := hmay
      exact absurd hrun (hc run)
  | some t =>
      simp only [ht] at hmay
      exact ⟨t, rfl, hmay⟩

theorem served {e : Event Ev} (hv : Valid D (e :: h)) : Served D h e.ev := hv.2.1

/-- An XADD was issued by a task, for one of the four reasons. -/
theorem origin {e : Event Ev} {stream : String} {id : StreamID} {v : Values}
    (hv : Valid D (e :: h)) (ha : e.ev.Adds stream id v) :
    ∃ t ctx maxLen, e.tid = some t ∧ Origin D (h.own t) ctx (.xAdd stream maxLen v) := by
  obtain ⟨ctx, maxLen, now, hev⟩ := ha
  obtain ⟨t, ht, hmay⟩ := hv.may (by simp [hev])
  rw [hev] at hmay
  exact ⟨t, ctx, maxLen, ht, hmay⟩

/-- The job of an entry was marshalled into it. -/
theorem encodable (hv : Valid D h) {stream : String} {id : StreamID} {v : Values}
    {job : JobEnvelope} (ha : h.Added stream id v) (hj : v.job = some job) : job.Encodable := by
  obtain ⟨e, he, hev⟩ := ha
  obtain ⟨h₁, h₂, -, hv'⟩ := hv.upTo he
  obtain ⟨t, ctx, maxLen, -, horig⟩ := hv'.origin hev
  exact horig.encodable hj

end Valid

end LogPipeline.Cluster
