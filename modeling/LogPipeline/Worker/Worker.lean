/-
  LogPipeline.Worker.Worker

  `internal/worker/worker.go` and `internal/worker/dedup_processor.go`: the poll
  loop, the reclaim loop and the handling of one message.

  The two loops take the number of rounds they may still make; a loop that has
  used them up is one that has not got further yet.
-/

import LogPipeline.Queue.Consumer

namespace LogPipeline

open Conc Go Redis Cluster Queue

/-- The processor a worker is built with. -/
inductive Processor where
  /-- The downstream processor itself. -/
  | downstream
  /-- `DeduplicatingProcessor` in front of it. -/
  | deduplicating (dedupTTL : Duration)

/-- `Worker`.  `run` identifies one call of `Start`: its group context, its
    semaphore and its counter of active jobs. -/
structure Worker where
  run : Nat
  consumer : Consumer
  processor : Processor
  config : WorkerConfig
  workerID : String
  partitionID : Int64

-- ============================================================================
-- Processing one message
-- ============================================================================

/-- The key `DeduplicatingProcessor` claims for an attempt. -/
def dedupKey (jobID : String) (retryCount : Int64) : String :=
  "dedup:" ++ jobID ++ ":" ++ formatInt retryCount

/-- Call the downstream processor; `none` is the nil error. -/
def callDownstream (envelope : JobEnvelope) : Program (Option String) := do
  call (.invoke envelope)
  call (.await envelope)

/-- `DeduplicatingProcessor.Process`.  The job context is not the worker's. -/
def dedupProcess (dedupTTL : Duration) (envelope : JobEnvelope) : Program (Option String) := do
  let key := dedupKey envelope.jobID envelope.retryCount
  match ← redis .background (.setNX key "1" dedupTTL) with
  | .error err => return some ("dedup check failed: " ++ err.text)
  | .ok wasNew =>
      if wasNew then callDownstream envelope
      else return none

/-- `processor.Process`. -/
def Processor.process : Processor → JobEnvelope → Program (Option String)
  | .downstream, envelope => callDownstream envelope
  | .deduplicating dedupTTL, envelope => dedupProcess dedupTTL envelope

namespace Worker

/-- `processMessage`: process, then acknowledge or retry. -/
def processMessage (w : Worker) (envelope : JobEnvelope) (messageID : StreamID) :
    Program Unit := do
  match ← w.processor.process envelope with
  | some err =>
      let _ ← w.consumer.retry (.worker w.run) envelope messageID err
      return ()
  | none =>
      let _ ← w.consumer.ack (.worker w.run) messageID
      return ()

/-- The closure both loops hand to `g.Go`. -/
def jobGoroutine (w : Worker) (envelope : JobEnvelope) (messageID : StreamID) :
    Program Unit := do
  call (.jobBegin w.run)
  w.processMessage envelope messageID
  call (.jobDone w.run)
  call (.jobEnd w.run)

-- ============================================================================
-- The loops
-- ============================================================================

/-- `pollLoop`. -/
def pollLoop (w : Worker) : Nat → Program Unit
  | 0 => return ()
  | rounds + 1 => do
      if ← call (.ctxDone w.run) then return ()
      else
        match ← w.consumer.consume (.worker w.run) w.config.pollInterval with
        | .error _ =>
            -- interruptible backoff
            if ← call (.timerOrDone w.run) then return () else w.pollLoop rounds
        | .ok none => w.pollLoop rounds
        | .ok (some (envelope, messageID)) =>
            if ← call (.semAcquire w.run) then
              call (.goProcess w.run envelope messageID)
              w.pollLoop rounds
            else return ()

/-- Start one goroutine for each claimed message. -/
def dispatchAll (w : Worker) : List (JobEnvelope × StreamID) → Program Unit
  | [] => return ()
  | (envelope, messageID) :: rest => do
      if ← call (.semAcquire w.run) then
        call (.goProcess w.run envelope messageID)
        w.dispatchAll rest
      else return ()

/-- `reclaimStale`.  A page that failed drops what the earlier pages claimed. -/
def reclaimStale (w : Worker) (pages : Nat) : Program (Except String Unit) := do
  match ← w.consumer.reclaimStale w.run w.config.reclaimIdleTime w.config.reclaimBatchSize
    pages with
  | none => return .ok ()
  | some (_, some err) => return .error ("failed to reclaim stale messages: " ++ err)
  | some (claimed, none) =>
      w.dispatchAll claimed
      return .ok ()

/-- The key of the reclaim lock of a partition. -/
def reclaimLockKey (partitionID : Int64) : String :=
  "worker:reclaim:lock:" ++ formatInt partitionID

/-- `tryReclaim`. -/
def tryReclaim (w : Worker) (pages : Nat) : Program (Except String Unit) := do
  match ← redis (.worker w.run)
    (.setNX (reclaimLockKey w.partitionID) w.workerID w.config.reclaimInterval) with
  | .error err => return .error ("failed to acquire reclaim lock: " ++ err.text)
  | .ok acquired =>
      if acquired then w.reclaimStale pages
      else return .ok ()

/-- The ticker loop of `reclaimLoop`. -/
def reclaimTicks (w : Worker) (pages : Nat) : Nat → Program Unit
  | 0 => return ()
  | ticks + 1 => do
      if ← call (.timerOrDone w.run) then return ()
      else
        let _ ← w.tryReclaim pages
        w.reclaimTicks pages ticks

/-- `reclaimLoop`: once on start, then on every tick. -/
def reclaimLoop (w : Worker) (pages ticks : Nat) : Program Unit := do
  let _ ← w.tryReclaim pages
  w.reclaimTicks pages ticks

end Worker

-- ============================================================================
-- Dedup keys
-- ============================================================================

/-- Attempts with one dedup key are attempts of one job with one retry count. -/
theorem dedupKey_injective {j j' : String} {r r' : Int64} (h : dedupKey j r = dedupKey j' r') :
    j = j' ∧ r = r' := by
  unfold dedupKey at h
  obtain ⟨hj, hr⟩ := append_sep_inj h
  exact ⟨(String.append_right_inj "dedup:").mp hj, hr⟩

end LogPipeline
