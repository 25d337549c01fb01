/-
  LogPipeline.Cluster.Effects

  What the queue and worker code asks of its surroundings: Redis commands, the
  clock, fresh uuids, the downstream processor and the worker's own semaphore
  and goroutines.

  Each call is one step of a run.  Whether a Redis command fails, and what the
  server, the clock or the processor answers, is decided by the environment
  (`LogPipeline.Cluster.World`).
-/

import LogPipeline.Conc.Prog
import LogPipeline.Queue.Message
import LogPipeline.Redis.Stream

namespace LogPipeline.Cluster

open Conc Go Redis Queue

-- ============================================================================
-- Redis
-- ============================================================================

/-- The field map of a stream entry. -/
abbrev Values := List (String × Text)

/-- A field of an entry; of two fields with one name the client keeps the last. -/
def Values.get (v : Values) (name : String) : Option Text := v.reverse.lookup name

/-- The errors a command returns. -/
inductive RedisError where
  /-- `redis.Nil`: there is nothing to return. -/
  | nil
  /-- An error reply, or a connection error. -/
  | server (msg : String)
  /-- The context was done before the command was sent. -/
  | context
deriving DecidableEq

/-- `err.Error()`. -/
def RedisError.text : RedisError → String
  | .nil => "redis: nil"
  | .server msg => msg
  | .context => "context canceled"

/-- The context a command is issued with: the group context of a worker, or one
    that the worker's shutdown does not cancel. -/
inductive Ctx where
  | background
  | worker (run : Nat)
deriving DecidableEq

/-- The commands of the queue and the worker. -/
inductive Cmd where
  | setNX (key value : String) (ttl : Duration)
  | xAdd (stream : String) (maxLen : Int64) (values : Values)
  | xAck (stream group : String) (id : StreamID)
  | xDel (stream : String) (id : StreamID)
  | xRange (stream : String) (lo hi : StreamID)
  /-- `COUNT 1` and the id `>`. -/
  | xReadGroup (stream group consumer : String) (block : Duration)
  | xAutoClaim (stream group consumer : String) (minIdle : Duration) (start : StreamID)
      (count : Int64)
  | xGroupCreateMkStream (stream group : String)
  | xLen (stream : String)
  | xPending (stream group : String)

/-- The summary form of XPENDING, as the client returns it. -/
structure PendingSummary where
  count : Nat
  /-- The smallest pending id, or the empty string. -/
  lower : String

/-- The reply to a command that succeeds. -/
@[reducible] def Cmd.Reply : Cmd → Type
  | .setNX .. => Bool
  | .xAdd .. => StreamID
  | .xAck .. => Nat
  | .xDel .. => Nat
  | .xRange .. => List (Entry Values)
  | .xReadGroup .. => List (Entry Values)
  | .xAutoClaim .. => List (Entry Values) × StreamID
  | .xGroupCreateMkStream .. => Unit
  | .xLen .. => Nat
  | .xPending .. => PendingSummary

-- ============================================================================
-- The signature
-- ============================================================================

/-- What a caller outside the modelled code sees of a finished call. -/
inductive Note where
  /-- `Enqueue` returned this message id. -/
  | enqueued (id : StreamID)
  /-- `DLQ.Requeue` of this entry onto this stream returned nil. -/
  | requeued (id : StreamID) (stream : String)

inductive Op where
  /-- `uuid.New().String()`. -/
  | uuid
  /-- `time.Now()`. -/
  | now
  | redis (ctx : Ctx) (cmd : Cmd)
  /-- The call of the downstream `Process` begins. -/
  | invoke (envelope : JobEnvelope)
  /-- It returns: nil, or an error. -/
  | await (envelope : JobEnvelope)
  /-- `select` on the worker's context with a `default` branch: is it done? -/
  | ctxDone (run : Nat)
  /-- `select` on the worker's context and a timer: did the context win? -/
  | timerOrDone (run : Nat)
  /-- `w.sem.Acquire(ctx, 1)`; false is the context error. -/
  | semAcquire (run : Nat)
  /-- `g.Go` with a closure that runs `processMessage`. -/
  | goProcess (run : Nat) (envelope : JobEnvelope) (id : StreamID)
  /-- `w.activeJobs.Add(1)`. -/
  | jobBegin (run : Nat)
  /-- The deferred `w.activeJobs.Add(-1)`. -/
  | jobDone (run : Nat)
  /-- The deferred `w.sem.Release(1)`. -/
  | jobEnd (run : Nat)
  | note (n : Note)

@[reducible] def Op.Res : Op → Type
  | .uuid => String
  | .now => Instant
  | .redis _ cmd => Except RedisError cmd.Reply
  | .invoke _ => Unit
  | .await _ => Option String
  | .ctxDone _ => Bool
  | .timerOrDone _ => Bool
  | .semAcquire _ => Bool
  | .goProcess .. => Unit
  | .jobBegin _ => Unit
  | .jobDone _ => Unit
  | .jobEnd _ => Unit
  | .note _ => Unit

def sig : Sig := ⟨Op, Op.Res⟩

/-- A program of the queue or the worker. -/
abbrev Program (α : Type) := Prog sig α

/-- Make one call. -/
def call (o : Op) : Program o.Res := Prog.perform (S := sig) o

/-- Issue one Redis command. -/
def redis (ctx : Ctx) (cmd : Cmd) : Program (Except RedisError cmd.Reply) :=
  call (.redis ctx cmd)

@[simp] theorem call_bind {β : Type} (o : Op) (f : o.Res → Program β) :
    (call o).bind f = Prog.call (S := sig) o f := rfl

@[simp] theorem redis_bind {β : Type} (ctx : Ctx) (cmd : Cmd)
    (f : Except RedisError cmd.Reply → Program β) :
    (redis ctx cmd).bind f = Prog.call (S := sig) (.redis ctx cmd) f := rfl

end LogPipeline.Cluster
