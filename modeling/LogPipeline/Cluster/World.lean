/-
  LogPipeline.Cluster.World

  The deployed system: one Redis server, any number of producers, workers and
  operators, and what each call of their programs does.

  The store holds the server's streams and keys with the server clock, the
  workers' semaphores and counters, the goroutines that were started and not yet
  scheduled, and the log: every command with its reply, every downstream call and
  its result, every cancellation, in order.

  A command fails if the environment says so (`Choice.fail`) or if it is issued
  with a worker context that was cancelled; a failed command is not applied.
  Streams and plain keys live in separate name spaces.
-/

import LogPipeline.Bootstrap
import LogPipeline.Conc.Pool
import LogPipeline.Redis.Delivery

namespace LogPipeline.Cluster

open Conc Go Redis Queue Bootstrap

-- ============================================================================
-- Deployments
-- ============================================================================

/-- One deployment: an accepted configuration shared by all processes, and for
    each call of `Worker.Start` the worker's id and partition. -/
structure Deployment where
  accepted : Config.Accepted
  /-- Whether the workers are wired with the deduplicating processor, as
      `cmd/worker` does. -/
  dedup : Bool
  workerID : Nat → String
  partition : Nat → Int64
  partition_nonneg : ∀ run, 0 ≤ partition run
  partition_lt : ∀ run, partition run < accepted.cfg.queue.partitionCount

namespace Deployment

variable (D : Deployment)

def cfg : Config := D.accepted.cfg

/-- The configuration of the process that makes the given run. -/
def workerCfg (run : Nat) : Config :=
  { D.cfg with queue := { D.cfg.queue with partitionID := D.partition run } }

def processor : Processor :=
  if D.dedup then .deduplicating D.cfg.worker.dedupTTL else .downstream

def worker (run : Nat) : Worker :=
  setupWorker (D.workerCfg run) run (D.workerID run) D.processor

/-- The stream a worker reads. -/
def stream (run : Nat) : String :=
  partitionStreamName D.cfg.queue.baseStreamName (D.partition run)

/-- The group a worker reads with. -/
def group (run : Nat) : String :=
  partitionGroupName D.cfg.queue.baseConsumerGroup (D.partition run)

def dlq : DLQ := setupDLQ D.cfg.queue

/-- A partition of the configuration. -/
def IsPartition (p : Int64) : Prop := 0 ≤ p ∧ p < D.cfg.queue.partitionCount

instance (p : Int64) : Decidable (D.IsPartition p) := inferInstanceAs (Decidable (_ ∧ _))

def partitionStream (p : Int64) : String := partitionStreamName D.cfg.queue.baseStreamName p

def partitionGroup (p : Int64) : String := partitionGroupName D.cfg.queue.baseConsumerGroup p

/-- All partitions, in order. -/
def partitions : List Int64 :=
  (List.range D.cfg.queue.partitionCount.toInt.toNat).map Int64.ofNat

theorem mem_partitions {p : Int64} : p ∈ D.partitions ↔ D.IsPartition p := by
  have hzero : (0 : Int64).toInt = 0 := rfl
  have hcount := Int64.toInt_lt D.cfg.queue.partitionCount
  unfold partitions IsPartition
  rw [List.mem_map, Int64.le_iff_toInt_le, Int64.lt_iff_toInt_lt, hzero]
  constructor
  · rintro ⟨i, hi, rfl⟩
    have hi := List.mem_range.mp hi
    rw [Int64.toInt_ofNat_of_lt (by omega)]
    omega
  · rintro ⟨h0, hlt⟩
    refine ⟨p.toInt.toNat, List.mem_range.mpr (by omega), ?_⟩
    rw [← Int64.toInt_inj, Int64.toInt_ofNat_of_lt (by omega)]
    omega

theorem isPartition_partition (run : Nat) : D.IsPartition (D.partition run) :=
  ⟨D.partition_nonneg run, D.partition_lt run⟩

/-- Every worker on partition 0 with the default configuration. -/
def ofDefaults (dedup : Bool) : Deployment where
  accepted := ⟨.getDefaults, Config.validate_getDefaults⟩
  dedup := dedup
  workerID := fun _ => "worker"
  partition := fun _ => 0
  partition_nonneg := fun _ => Int64.le_refl 0
  partition_lt := fun _ => by decide +kernel

theorem ofDefaults_partition_lt (dedup : Bool) (run : Nat) :
    (ofDefaults dedup).partition run < (ofDefaults dedup).accepted.cfg.queue.partitionCount :=
  (ofDefaults dedup).partition_lt run

/-- The process of every worker has an accepted configuration. -/
theorem workerCfg_valid (run : Nat) : Config.validate (D.workerCfg run) = none :=
  Config.Accepted.validate_withPartition D.accepted.valid (D.partition_nonneg run)
    (D.partition_lt run)

end Deployment

-- ============================================================================
-- The log
-- ============================================================================

/-- A message handed to a worker's `processMessage`. -/
structure Delivery where
  run : Nat
  envelope : JobEnvelope
  id : StreamID

/-- What is logged. -/
inductive Ev where
  | minted (uuid : String)
  /-- A command, its reply and the server time. -/
  | cmd (ctx : Ctx) (cmd : Cmd) (reply : Except RedisError cmd.Reply) (now : Nat)
  | invoked (envelope : JobEnvelope)
  | returned (envelope : JobEnvelope) (err : Option String)
  /-- A goroutine entered `processMessage`. -/
  | started (d : Delivery)
  /-- It is done. -/
  | finished (run : Nat)
  /-- The context of a worker was cancelled. -/
  | cancelled (run : Nat)
  | noted (n : Note)

/-- The log, newest event first. -/
abbrev Log := List (Event Ev)

/-- The worker's context was cancelled. -/
def Log.Cancelled (h : Log) (run : Nat) : Prop := ∃ e ∈ h, e.ev = .cancelled run

/-- The cancellation test of `Log.Cancelled`. -/
def Ev.isCancel (run : Nat) : Ev → Bool
  | .cancelled r => r == run
  | _ => false

theorem Ev.isCancel_eq_true {ev : Ev} {run : Nat} :
    ev.isCancel run = true ↔ ev = .cancelled run := by
  cases ev <;> simp [Ev.isCancel]

theorem Log.cancelled_iff {h : Log} {run : Nat} :
    h.Cancelled run ↔ (h.any fun e => e.ev.isCancel run) = true := by
  rw [List.any_eq_true]
  unfold Log.Cancelled
  simp only [Ev.isCancel_eq_true]

instance (h : Log) (run : Nat) : Decidable (h.Cancelled run) :=
  decidable_of_iff _ Log.cancelled_iff.symm

/-- A command with this context is not sent. -/
def Log.CtxDone (h : Log) : Ctx → Prop
  | .background => False
  | .worker run => h.Cancelled run

instance (h : Log) : ∀ ctx, Decidable (h.CtxDone ctx)
  | .background => inferInstanceAs (Decidable False)
  | .worker run => inferInstanceAs (Decidable (h.Cancelled run))

-- ============================================================================
-- The store
-- ============================================================================

/-- A plain key with the server time at which it expires. -/
structure Key where
  value : String
  expires : Option Nat

structure Store where
  streams : String → Stream Values
  keys : String → Option Key
  /-- The server clock, in milliseconds. -/
  now : Nat
  /-- Semaphore permits held, for each worker. -/
  permits : Nat → Nat
  /-- `activeJobs`, for each worker. -/
  active : Nat → Int
  /-- Goroutines started by `g.Go` and not yet scheduled. -/
  ready : List Delivery
  log : Log

namespace Store

/-- A server without data, and no processes. -/
def init : Store where
  streams := fun _ => .empty
  keys := fun _ => none
  now := 0
  permits := fun _ => 0
  active := fun _ => 0
  ready := []
  log := []

def record (s : Store) (who : Option Nat) (ev : Ev) : Store :=
  { s with log := ⟨s.log.length, who, ev⟩ :: s.log }

def setStream (s : Store) (name : String) (x : Stream Values) : Store :=
  { s with streams := Function.update s.streams name x }

end Store

-- ============================================================================
-- The server
-- ============================================================================

/-- What the environment decides about one call. -/
structure Choice where
  /-- The command fails with this error. -/
  fail : Option String := none
  /-- The id XADD generates. -/
  id : StreamID := .zero
  /-- How many of the oldest entries an approximate MAXLEN evicts. -/
  trim : Nat := 0
  /-- How many more pending entries than one XAUTOCLAIM examines. -/
  scan : Nat := 0
  uuid : String := ""
  clock : Instant := .epoch
  /-- What the downstream processor returns. -/
  result : Option String := none
  /-- Whether a timer wins against a context that is done as well. -/
  timer : Bool := false

/-- A duration as the client sends it: whole milliseconds, and at least one if it is
    positive.  The server reads a negative minimal idle time as zero. -/
def formatMs (d : Duration) : Nat :=
  if 0 < d then max 1 (d.toInt / 1000000).toNat else 0

/-- When a key set now with this TTL expires.  The client sends whole
    milliseconds, and at least one; zero and `KeepTTL` set no expiry. -/
def expiry (now : Nat) (ttl : Duration) : Option Nat :=
  if 0 < ttl then some (now + max 1 (ttl.toInt / 1000000).toNat) else none

/-- The key exists. -/
def Store.Live (s : Store) (key : String) : Prop :=
  ∃ k, s.keys key = some k ∧ ∀ x, k.expires = some x → s.now < x

/-- The liveness test of `Store.Live`. -/
def Key.isLive (now : Nat) (k : Key) : Bool :=
  match k.expires with
  | none => true
  | some x => decide (now < x)

instance (s : Store) (key : String) : Decidable (s.Live key) :=
  decidable_of_iff ((s.keys key).any (Key.isLive s.now) = true) (by
    unfold Store.Live
    cases s.keys key with
    | none => simp
    | some k => cases hx : k.expires <;> simp [Key.isLive, hx])

/-- Approximate trimming evicts nothing, or leaves at least `maxLen` entries; a
    limit that is not positive is not sent. -/
def TrimOk (maxLen : Int64) (stored trim : Nat) : Prop :=
  trim = 0 ∨ (0 < maxLen ∧ maxLen.toInt.toNat + trim ≤ stored + 1)

instance (maxLen : Int64) (stored trim : Nat) : Decidable (TrimOk maxLen stored trim) :=
  inferInstanceAs (Decidable (_ ∨ _))

/-- The error of a read with a group that does not exist. -/
def noGroup (stream group : String) : RedisError :=
  .server ("NOGROUP No such key '" ++ stream ++ "' or consumer group '" ++ group ++ "'")

/-- One command, executed by the server.  `none` if the choice is not one the
    server can make. -/
def runCmd (ch : Choice) (s : Store) : (c : Cmd) → Option (Except RedisError c.Reply × Store)
  | .setNX key value ttl =>
      if ttl < -1 then some (.error (.server "ERR invalid expire time in 'set' command"), s)
      else if s.Live key then some (.ok false, s)
      else some (.ok true,
        { s with keys := Function.update s.keys key (some ⟨value, expiry s.now ttl⟩) })
  | .xAdd stream maxLen v =>
      if h : (s.streams stream).lastID < ch.id then
        if TrimOk maxLen (s.streams stream).xlen ch.trim then
          some (.ok ch.id, s.setStream stream ((s.streams stream).xadd ch.id h v ch.trim))
        else none
      else none
  | .xAck stream group id =>
      some (.ok ((s.streams stream).xack group id).2,
        s.setStream stream ((s.streams stream).xack group id).1)
  | .xDel stream id =>
      some (.ok ((s.streams stream).xdel id).2,
        s.setStream stream ((s.streams stream).xdel id).1)
  | .xRange stream lo hi => some (.ok ((s.streams stream).xrange lo hi), s)
  | .xReadGroup stream group consumer _ =>
      match (s.streams stream).xreadgroup group consumer s.now with
      | none => some (.error (noGroup stream group), s)
      | some (none, x) => some (.error .nil, s.setStream stream x)
      | some (some e, x) => some (.ok [e], s.setStream stream x)
  | .xAutoClaim stream group consumer minIdle start count =>
      match (s.streams stream).xautoclaim group consumer (formatMs minIdle) s.now
        start count.toInt.toNat (ch.scan + 1) with
      | none => some (.error (noGroup stream group), s)
      | some (es, cursor, x) => some (.ok (es, cursor), s.setStream stream x)
  | .xGroupCreateMkStream stream group =>
      match (s.streams stream).xgroupCreate group with
      | none => some (.error (.server "BUSYGROUP Consumer Group name already exists"), s)
      | some x => some (.ok (), s.setStream stream x)
  | .xLen stream => some (.ok (s.streams stream).xlen, s)
  | .xPending stream group =>
      match (s.streams stream).xpending group with
      | none => some (.error (noGroup stream group), s)
      | some (count, lower) => some (.ok ⟨count, (lower.map (·.toString)).getD ""⟩, s)

/-- The client's view: not sent with a context that is done, lost if the
    environment says so, else executed. -/
def answer (ch : Choice) (ctx : Ctx) (c : Cmd) (s : Store) :
    Option (Except RedisError c.Reply × Store) :=
  if s.log.CtxDone ctx then some (.error .context, s)
  else
    match ch.fail with
    | some msg => some (.error (.server msg), s)
    | none => runCmd ch s c

-- ============================================================================
-- The world
-- ============================================================================

/-- What one call does. -/
def exec (D : Deployment) (t : Nat) (ch : Choice) :
    (o : Op) → Store → Option (o.Res × Store)
  | .uuid, s => some (ch.uuid, s.record (some t) (.minted ch.uuid))
  | .now, s => some (ch.clock, s)
  | .redis ctx c, s =>
      match answer ch ctx c s with
      | some (r, s') => some (r, s'.record (some t) (.cmd ctx c r s.now))
      | none => none
  | .invoke e, s => some ((), s.record (some t) (.invoked e))
  | .await e, s => some (ch.result, s.record (some t) (.returned e ch.result))
  | .ctxDone run, s => some (decide (s.log.Cancelled run), s)
  | .timerOrDone run, s => some (decide (s.log.Cancelled run) && !ch.timer, s)
  | .semAcquire run, s =>
      if s.log.Cancelled run ∧ ch.fail ≠ none then some (false, s)
      else if (s.permits run : Int) < D.cfg.worker.concurrency.toInt then
        some (true, { s with permits := Function.update s.permits run (s.permits run + 1) })
      else none
  | .goProcess run e id, s => some ((), { s with ready := s.ready ++ [⟨run, e, id⟩] })
  | .jobBegin run, s =>
      some ((), { s with active := Function.update s.active run (s.active run + 1) })
  | .jobDone run, s =>
      some ((), { s with active := Function.update s.active run (s.active run - 1) })
  | .jobEnd run, s =>
      some ((), { s with
        permits := Function.update s.permits run (s.permits run - 1) }.record (some t)
          (.finished run))
  | .note n, s => some ((), s.record (some t) (.noted n))

/-- Moves of the environment. -/
inductive Move where
  /-- The server clock advances. -/
  | tick (ms : Nat)
  /-- The caller of `Worker.Start` cancels its context. -/
  | cancel (run : Nat)

def move : Move → Store → Option Store
  | .tick ms, s => some { s with now := s.now + ms }
  | .cancel run, s => some (s.record none (.cancelled run))

/-- What can be started. -/
inductive Job where
  | enqueue (logEvent : LogEvent)
  | enqueueBatch (logEvents : List LogEvent)
  | setupPartitions
  /-- The poll loop of a worker. -/
  | poll (run rounds : Nat)
  /-- The reclaim loop of a worker. -/
  | reclaim (run pages ticks : Nat)
  /-- A goroutine that was started is scheduled. -/
  | process (index : Nat)
  | requeue (id : StreamID) (stream : String) (maxLen : Int64)

/-- A caller of `Enqueue` and of `DLQ.Requeue` that notes a success. -/
def enqueueAndNote (D : Deployment) (ev : LogEvent) : Program Unit := do
  match ← enqueue D.cfg.queue .background ev with
  | .ok id => call (.note (.enqueued id))
  | .error _ => return ()

@[inherit_doc enqueueAndNote]
def requeueAndNote (D : Deployment) (id : StreamID) (stream : String) (maxLen : Int64) :
    Program Unit := do
  match ← D.dlq.requeue .background id stream maxLen with
  | some (.ok _) => call (.note (.requeued id stream))
  | _ => return ()

def startJob (D : Deployment) (t : Nat) : Job → Store → Option (Program Unit × Store)
  | .enqueue ev, s => some (enqueueAndNote D ev, s)
  | .enqueueBatch evs, s =>
      some (do let _ ← enqueueBatch D.cfg.queue .background evs; return (), s)
  | .setupPartitions, s =>
      some (do let _ ← setupPartitions D.cfg.queue .background; return (), s)
  | .poll run rounds, s => some ((D.worker run).pollLoop rounds, s)
  | .reclaim run pages ticks, s => some ((D.worker run).reclaimLoop pages ticks, s)
  | .process index, s =>
      match s.ready[index]? with
      | some d => some ((D.worker d.run).jobGoroutine d.envelope d.id,
          { s with ready := s.ready.eraseIdx index }.record (some t) (.started d))
      | none => none
  | .requeue id stream maxLen, s => some (requeueAndNote D id stream maxLen, s)

/-- The two stores differ in their streams and keys only. -/
structure Untouched (s s' : Store) : Prop where
  log : s'.log = s.log
  now : s'.now = s.now
  ready : s'.ready = s.ready
  permits : s'.permits = s.permits
  active : s'.active = s.active

theorem Untouched.refl {s : Store} : Untouched s s := ⟨rfl, rfl, rfl, rfl, rfl⟩

/-- A key that is set expires later, if at all. -/
theorem lt_of_expiry {now x : Nat} {ttl : Duration} (h : expiry now ttl = some x) : now < x := by
  unfold expiry at h
  split at h
  · cases h
    omega
  · cases h

/-- A SETNX is rejected, finds its key, or sets it. -/
theorem runCmd_setNX {ch : Choice} {s s' : Store} {key value : String} {ttl : Duration}
    {r : Except RedisError Bool} (h : runCmd ch s (.setNX key value ttl) = some (r, s')) :
    (ttl < -1 ∧ (∃ err, r = .error err) ∧ s' = s) ∨
    (s.Live key ∧ r = .ok false ∧ s' = s) ∨
    (¬ s.Live key ∧ r = .ok true ∧
      s' = { s with keys := Function.update s.keys key (some ⟨value, expiry s.now ttl⟩) }) := by
  simp only [runCmd] at h
  split at h
  · next httl =>
      cases h
      exact Or.inl ⟨httl, ⟨_, rfl⟩, rfl⟩
  · split at h
    · next hlive =>
        cases h
        exact Or.inr (Or.inl ⟨hlive, rfl, rfl⟩)
    · next hdead =>
        cases h
        exact Or.inr (Or.inr ⟨hdead, rfl, rfl⟩)

/-- A command works on streams and keys only. -/
theorem runCmd_frame {ch : Choice} {s s' : Store} {c : Cmd} {r : Except RedisError c.Reply}
    (h : runCmd ch s c = some (r, s')) :
    Untouched s s' := by
  cases c with
  | setNX key value ttl =>
      rcases runCmd_setNX h with ⟨-, -, rfl⟩ | ⟨-, -, rfl⟩ | ⟨-, -, rfl⟩
      · exact .refl
      · exact .refl
      · exact ⟨rfl, rfl, rfl, rfl, rfl⟩
  | xAdd stream maxLen v =>
      simp only [runCmd] at h
      split at h
      · split at h
        · cases h
          exact ⟨rfl, rfl, rfl, rfl, rfl⟩
        · cases h
      · cases h
  | xAck stream group id =>
      cases h
      exact ⟨rfl, rfl, rfl, rfl, rfl⟩
  | xDel stream id =>
      cases h
      exact ⟨rfl, rfl, rfl, rfl, rfl⟩
  | xRange stream lo hi =>
      cases h
      exact ⟨rfl, rfl, rfl, rfl, rfl⟩
  | xReadGroup stream group consumer block =>
      simp only [runCmd] at h
      split at h <;> cases h <;> exact ⟨rfl, rfl, rfl, rfl, rfl⟩
  | xAutoClaim stream group consumer minIdle start count =>
      simp only [runCmd] at h
      split at h <;> cases h <;> exact ⟨rfl, rfl, rfl, rfl, rfl⟩
  | xGroupCreateMkStream stream group =>
      simp only [runCmd] at h
      split at h <;> cases h <;> exact ⟨rfl, rfl, rfl, rfl, rfl⟩
  | xLen stream =>
      cases h
      exact ⟨rfl, rfl, rfl, rfl, rfl⟩
  | xPending stream group =>
      simp only [runCmd] at h
      split at h <;> cases h <;> exact ⟨rfl, rfl, rfl, rfl, rfl⟩

/-- No other command sets a key. -/
theorem runCmd_keys {ch : Choice} {s s' : Store} {c : Cmd} {r : Except RedisError c.Reply}
    (hc : ∀ key value ttl, c ≠ .setNX key value ttl) (h : runCmd ch s c = some (r, s')) :
    s'.keys = s.keys := by
  cases c with
  | setNX key value ttl => exact absurd rfl (hc key value ttl)
  | xAdd stream maxLen v =>
      simp only [runCmd] at h
      split at h
      · split at h
        · cases h
          rfl
        · cases h
      · cases h
  | xReadGroup stream group consumer block =>
      simp only [runCmd] at h
      split at h <;> cases h <;> rfl
  | xAutoClaim stream group consumer minIdle start count =>
      simp only [runCmd] at h
      split at h <;> cases h <;> rfl
  | xGroupCreateMkStream stream group =>
      simp only [runCmd] at h
      split at h <;> cases h <;> rfl
  | xPending stream group =>
      simp only [runCmd] at h
      split at h <;> cases h <;> rfl
  | xAck | xDel | xRange | xLen =>
      cases h
      rfl

/-- An XADD that is executed gets the server's id and evicts what the server may. -/
theorem runCmd_xAdd {ch : Choice} {s s' : Store} {stream : String} {maxLen : Int64} {v : Values}
    {r : Except RedisError StreamID} (h : runCmd ch s (.xAdd stream maxLen v) = some (r, s')) :
    r = .ok ch.id ∧ TrimOk maxLen (s.streams stream).xlen ch.trim ∧
      ∃ hid : (s.streams stream).lastID < ch.id,
        s' = s.setStream stream ((s.streams stream).xadd ch.id hid v ch.trim) := by
  simp only [runCmd] at h
  split at h
  · next hid =>
      split at h
      · next htrim =>
          cases h
          exact ⟨rfl, htrim, hid, rfl⟩
      · cases h
  · cases h

theorem runCmd_xAdd_of {ch : Choice} {s : Store} {stream : String} {maxLen : Int64} {v : Values}
    (hid : (s.streams stream).lastID < ch.id)
    (htrim : TrimOk maxLen (s.streams stream).xlen ch.trim) :
    runCmd ch s (.xAdd stream maxLen v) =
      some (.ok ch.id, s.setStream stream ((s.streams stream).xadd ch.id hid v ch.trim)) := by
  simp only [runCmd]
  rw [dif_pos hid, if_pos htrim]

/-- A command is not sent, lost, or executed. -/
theorem answer_cases {ch : Choice} {ctx : Ctx} {c : Cmd} {s s' : Store}
    {r : Except RedisError c.Reply} (h : answer ch ctx c s = some (r, s')) :
    (s.log.CtxDone ctx ∧ r = .error .context ∧ s' = s) ∨
    (¬ s.log.CtxDone ctx ∧ ∃ msg, ch.fail = some msg ∧ r = .error (.server msg) ∧ s' = s) ∨
    (¬ s.log.CtxDone ctx ∧ ch.fail = none ∧ runCmd ch s c = some (r, s')) := by
  unfold answer at h
  split at h
  · next hd =>
      cases h
      exact Or.inl ⟨hd, rfl, rfl⟩
  · next hd =>
      split at h
      · next msg hm =>
          cases h
          exact Or.inr (Or.inl ⟨hd, msg, hm, rfl, rfl⟩)
      · next hm => exact Or.inr (Or.inr ⟨hd, hm, h⟩)

theorem answer_frame {ch : Choice} {ctx : Ctx} {c : Cmd} {s s' : Store}
    {r : Except RedisError c.Reply} (h : answer ch ctx c s = some (r, s')) :
    Untouched s s' := by
  rcases answer_cases h with ⟨-, -, rfl⟩ | ⟨-, -, -, -, rfl⟩ | ⟨-, -, hrun⟩
  · exact .refl
  · exact .refl
  · exact runCmd_frame hrun

/-- A call of a Redis command logs the command and its reply. -/
theorem exec_redis {D : Deployment} {t : Nat} {ch : Choice} {ctx : Ctx} {c : Cmd} {s s' : Store}
    {r : Except RedisError c.Reply} (h : exec D t ch (.redis ctx c) s = some (r, s')) :
    ∃ s₁, answer ch ctx c s = some (r, s₁) ∧ s' = s₁.record (some t) (.cmd ctx c r s.now) := by
  simp only [exec] at h
  split at h
  · next r' s₁ hans =>
      cases h
      exact ⟨s₁, hans, rfl⟩
  · cases h

theorem exec_of_answer {D : Deployment} {t : Nat} {ch : Choice} {ctx : Ctx} {c : Cmd}
    {s s₁ : Store} {r : Except RedisError c.Reply} (h : answer ch ctx c s = some (r, s₁)) :
    exec D t ch (.redis ctx c) s = some (r, s₁.record (some t) (.cmd ctx c r s.now)) := by
  simp only [exec, h]

/-- A command that is sent and not lost is executed. -/
theorem answer_sent {ch : Choice} {ctx : Ctx} {c : Cmd} {s : Store} (hctx : ¬ s.log.CtxDone ctx)
    (hfail : ch.fail = none) : answer ch ctx c s = runCmd ch s c := by
  unfold answer
  rw [if_neg hctx, hfail]

theorem answer_background {ch : Choice} {c : Cmd} {s : Store} (hfail : ch.fail = none) :
    answer ch .background c s = runCmd ch s c :=
  answer_sent (fun hdone => hdone) hfail

theorem record_records (s s₁ : Store) (who : Option Nat) (ev : Ev) (h : s₁.log = s.log) :
    Records who s.log (s₁.record who ev).log := by
  refine Or.inr ⟨ev, ?_⟩
  simp only [Store.record, h]

theorem exec_records {D : Deployment} {t : Nat} {ch : Choice} {o : Op} {s s' : Store}
    {r : o.Res} (h : exec D t ch o s = some (r, s')) : Records (some t) s.log s'.log := by
  cases o with
  | redis ctx c =>
      obtain ⟨s₁, hans, rfl⟩ := exec_redis h
      exact record_records s s₁ _ _ (answer_frame hans).1
  | uuid =>
      cases h
      exact record_records s s _ _ rfl
  | invoke e =>
      cases h
      exact record_records s s _ _ rfl
  | await e =>
      cases h
      exact record_records s s _ _ rfl
  | note n =>
      cases h
      exact record_records s s _ _ rfl
  | jobEnd run =>
      cases h
      exact record_records s _ _ _ rfl
  | semAcquire run =>
      simp only [exec] at h
      split at h
      · cases h
        exact Or.inl rfl
      · split at h
        · cases h
          exact Or.inl rfl
        · cases h
  | now =>
      cases h
      exact Or.inl rfl
  | ctxDone run =>
      cases h
      exact Or.inl rfl
  | timerOrDone run =>
      cases h
      exact Or.inl rfl
  | goProcess run e id =>
      cases h
      exact Or.inl rfl
  | jobBegin run =>
      cases h
      exact Or.inl rfl
  | jobDone run =>
      cases h
      exact Or.inl rfl

theorem move_records {m : Move} {s s' : Store} (h : move m s = some s') :
    Records none s.log s'.log := by
  cases m with
  | tick ms =>
      cases h
      exact Or.inl rfl
  | cancel run =>
      cases h
      exact record_records s s _ _ rfl

theorem startJob_records {D : Deployment} {t : Nat} {j : Job} {s s' : Store} {p : Program Unit}
    (h : startJob D t j s = some (p, s')) : Records (some t) s.log s'.log := by
  cases j with
  | process index =>
      simp only [startJob] at h
      split at h
      · cases h
        exact record_records s _ _ _ rfl
      · cases h
  | enqueue ev =>
      cases h
      exact Or.inl rfl
  | enqueueBatch evs =>
      cases h
      exact Or.inl rfl
  | setupPartitions =>
      cases h
      exact Or.inl rfl
  | poll run rounds =>
      cases h
      exact Or.inl rfl
  | reclaim run pages ticks =>
      cases h
      exact Or.inl rfl
  | requeue id stream maxLen =>
      cases h
      exact Or.inl rfl

/-- The deployment as a world of programs. -/
@[reducible] def world (D : Deployment) : World sig where
  Store := Store
  Ev := Ev
  Choice := Choice
  Env := Move
  Job := Job
  hist := Store.log
  exec := exec D
  env := move
  start := startJob D
  exec_records := exec_records
  env_records := move_records
  start_records := startJob_records

end LogPipeline.Cluster
