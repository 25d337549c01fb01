/-
  LogPipeline.Cluster.Control

  The control states of the tasks of a deployment.

  `Control` is the automaton that the queue and worker code follows: what a
  producer, an operator, the two loops of a worker and the goroutine of a message
  call in which order.  `typed_start` says that every program that can be started
  follows it, function by function; results about the semaphore and the reclaim
  lock are then proved about the automaton.
-/

import LogPipeline.Cluster.World
import LogPipeline.Conc.Typestate

namespace LogPipeline.Cluster

open Conc Go Redis Queue Bootstrap

-- ============================================================================
-- The automaton
-- ============================================================================

/-- Where a task is. -/
inductive Stage where
  /-- A producer, or the set-up of the partitions. -/
  | client
  /-- A call of `DLQ.Requeue`. -/
  | operator
  /-- The poll loop of a worker. -/
  | polling (run : Nat)
  /-- It holds a permit for the message it has read. -/
  | polled (run : Nat)
  /-- The reclaim loop of a worker, without the reclaim lock. -/
  | waiting (run : Nat)
  /-- It has won the lock and runs `reclaimStale`. -/
  | reclaiming (run : Nat)
  /-- It holds a permit for a message it has reclaimed. -/
  | reclaimed (run : Nat)
  /-- The goroutine of a message, before `activeJobs.Add(1)`. -/
  | spawned (run : Nat)
  /-- It runs `processMessage`. -/
  | active (run : Nat)
  /-- It has counted itself off and holds its permit. -/
  | closing (run : Nat)
  /-- It has released its permit. -/
  | over

/-- The SETNX of `tryReclaim`. -/
def Deployment.lockCmd (D : Deployment) (run : Nat) : Cmd :=
  .setNX (Worker.reclaimLockKey (D.partition run)) (D.workerID run) D.cfg.worker.reclaimInterval

/-- The Redis commands of `processMessage`. -/
def Cmd.IsJob : Cmd → Prop
  | .setNX .. => True
  | .xAdd .. => True
  | .xAck .. => True
  | _ => False

/-- Which call a task makes in which stage, and where the answer leads. -/
inductive Control (D : Deployment) : Stage → (o : Op) → o.Res → Stage → Prop
  | uuid {u : String} : Control D .client .uuid u .client
  | clock {i : Instant} : Control D .client .now i .client
  | produce {ctx : Ctx} {stream : String} {maxLen : Int64} {v : Values}
      {r : Except RedisError StreamID} :
      Control D .client (.redis ctx (.xAdd stream maxLen v)) r .client
  | create {ctx : Ctx} {stream group : String} {r : Except RedisError Unit} :
      Control D .client (.redis ctx (.xGroupCreateMkStream stream group)) r .client
  | enqueued {n : Note} {u : Unit} : Control D .client (.note n) u .client
  | fetch {ctx : Ctx} {stream : String} {lo hi : StreamID}
      {r : Except RedisError (List (Entry Values))} :
      Control D .operator (.redis ctx (.xRange stream lo hi)) r .operator
  | requeue {ctx : Ctx} {stream : String} {maxLen : Int64} {v : Values}
      {r : Except RedisError StreamID} :
      Control D .operator (.redis ctx (.xAdd stream maxLen v)) r .operator
  | delete {ctx : Ctx} {stream : String} {id : StreamID} {r : Except RedisError Nat} :
      Control D .operator (.redis ctx (.xDel stream id)) r .operator
  | requeued {n : Note} {u : Unit} : Control D .operator (.note n) u .operator
  | poll {run : Nat} {b : Bool} : Control D (.polling run) (.ctxDone run) b (.polling run)
  | read {run : Nat} {ctx : Ctx} {stream group consumer : String} {block : Duration}
      {r : Except RedisError (List (Entry Values))} :
      Control D (.polling run) (.redis ctx (.xReadGroup stream group consumer block)) r
        (.polling run)
  | backoff {run : Nat} {b : Bool} : Control D (.polling run) (.timerOrDone run) b (.polling run)
  | acquire {run : Nat} : Control D (.polling run) (.semAcquire run) true (.polled run)
  | refused {run : Nat} : Control D (.polling run) (.semAcquire run) false (.polling run)
  | dispatch {run : Nat} {e : JobEnvelope} {id : StreamID} {u : Unit} :
      Control D (.polled run) (.goProcess run e id) u (.polling run)
  | tick {run : Nat} {b : Bool} : Control D (.waiting run) (.timerOrDone run) b (.waiting run)
  | won {run : Nat} :
      Control D (.waiting run) (.redis (.worker run) (D.lockCmd run)) (.ok true) (.reclaiming run)
  | lost {run : Nat} {r : Except RedisError Bool} (h : r ≠ .ok true) :
      Control D (.waiting run) (.redis (.worker run) (D.lockCmd run)) r (.waiting run)
  | claim {run : Nat} {ctx : Ctx} {stream group consumer : String} {minIdle : Duration}
      {start : StreamID} {count : Int64}
      {r : Except RedisError (List (Entry Values) × StreamID)} :
      Control D (.reclaiming run)
        (.redis ctx (.xAutoClaim stream group consumer minIdle start count)) r (.reclaiming run)
  | page {run : Nat} {b : Bool} : Control D (.reclaiming run) (.ctxDone run) b (.reclaiming run)
  | take {run : Nat} : Control D (.reclaiming run) (.semAcquire run) true (.reclaimed run)
  | denied {run : Nat} : Control D (.reclaiming run) (.semAcquire run) false (.reclaiming run)
  | hand {run : Nat} {e : JobEnvelope} {id : StreamID} {u : Unit} :
      Control D (.reclaimed run) (.goProcess run e id) u (.reclaiming run)
  /-- `reclaimStale` has returned, and the loop waits for its ticker. -/
  | leave {run : Nat} {b : Bool} : Control D (.reclaiming run) (.timerOrDone run) b (.waiting run)
  | enter {run : Nat} {u : Unit} : Control D (.spawned run) (.jobBegin run) u (.active run)
  | command {run : Nat} {ctx : Ctx} {c : Cmd} {r : Except RedisError c.Reply} (h : c.IsJob) :
      Control D (.active run) (.redis ctx c) r (.active run)
  | time {run : Nat} {i : Instant} : Control D (.active run) .now i (.active run)
  | invoke {run : Nat} {e : JobEnvelope} {u : Unit} :
      Control D (.active run) (.invoke e) u (.active run)
  | await {run : Nat} {e : JobEnvelope} {res : Option String} :
      Control D (.active run) (.await e) res (.active run)
  | done {run : Nat} {u : Unit} : Control D (.active run) (.jobDone run) u (.closing run)
  | release {run : Nat} {u : Unit} : Control D (.closing run) (.jobEnd run) u .over

/-- A task may return in this stage: it holds no permit. -/
def Stage.Final : Stage → Prop
  | .polled _ => False
  | .reclaimed _ => False
  | .spawned _ => False
  | .active _ => False
  | .closing _ => False
  | _ => True

/-- The automaton of a deployment. -/
@[reducible] def control (D : Deployment) : Typestate sig Stage := ⟨Control D, Stage.Final⟩

section

variable {D : Deployment}

/-- The rule for one call. -/
theorem typed_call {α : Type} {Q : α → Stage → Prop} {o : Op} {k : o.Res → Program α} {x : Stage}
    (h : ∀ r : o.Res, ∃ y, Control D x o r y ∧ Typed (control D) Q (k r) y) :
    Typed (control D) Q ((call o).bind k) x :=
  h

-- ============================================================================
-- Producers, operators and the set-up
-- ============================================================================

theorem typed_buildJobEnvelope (ev : LogEvent) (maxRetries : Int64) :
    Typed (control D) (fun _ y => y = .client) (buildJobEnvelope ev maxRetries) .client :=
  fun _ => ⟨_, .uuid, fun _ => ⟨_, .clock, rfl⟩⟩

theorem typed_enqueue (cfg : QueueConfig) (ctx : Ctx) (ev : LogEvent) :
    Typed (control D) (fun _ y => y = .client) (enqueue cfg ctx ev) .client := by
  refine (typed_buildJobEnvelope ev cfg.redisMaxRetries).seq ?_
  rintro envelope _ rfl
  cases buildXAddArgs (streamNameFor cfg ev.service) cfg.maxLen envelope with
  | error err => rfl
  | ok args =>
      refine typed_call fun r => ⟨_, .produce, ?_⟩
      cases r with
      | error err => rfl
      | ok id => rfl

theorem typed_enqueueAndNote (ev : LogEvent) :
    Typed (control D) (fun _ y => y = .client) (enqueueAndNote D ev) .client := by
  refine (typed_enqueue _ _ _).seq ?_
  rintro res _ rfl
  cases res with
  | error err => rfl
  | ok id => exact fun _ => ⟨_, .enqueued, rfl⟩

theorem typed_buildBatch (cfg : QueueConfig) (evs : List LogEvent) :
    Typed (control D) (fun _ y => y = .client) (buildBatch cfg evs) .client := by
  induction evs with
  | nil => rfl
  | cons ev evs ih =>
      refine (typed_buildJobEnvelope ev cfg.redisMaxRetries).seq ?_
      rintro envelope _ rfl
      cases buildXAddArgs (streamNameFor cfg ev.service) cfg.maxLen envelope with
      | error err => rfl
      | ok args =>
          refine ih.seq ?_
          rintro res _ rfl
          cases res with
          | error err => rfl
          | ok batch => rfl

theorem typed_execPipeline (ctx : Ctx) (batch : List XAddArgs) :
    Typed (control D) (fun _ y => y = .client) (execPipeline ctx batch) .client := by
  induction batch with
  | nil => rfl
  | cons args batch ih =>
      intro r
      refine ⟨_, .produce, ih.seq ?_⟩
      rintro replies _ rfl
      rfl

theorem typed_enqueueBatch (cfg : QueueConfig) (ctx : Ctx) (evs : List LogEvent) :
    Typed (control D) (fun _ y => y = .client) (enqueueBatch cfg ctx evs) .client := by
  unfold enqueueBatch
  split
  · rfl
  · refine (typed_buildBatch cfg evs).seq ?_
    rintro res _ rfl
    cases res with
    | error err => rfl
    | ok batch =>
        refine (typed_execPipeline ctx batch).seq ?_
        rintro replies _ rfl
        cases replies.mapM id with
        | error err => rfl
        | ok ids => rfl

theorem typed_setupPartitionsFrom (cfg : QueueConfig) (ctx : Ctx) (n : Nat) (i : Int64) :
    Typed (control D) (fun _ y => y = .client) (setupPartitionsFrom cfg ctx n i) .client := by
  induction n generalizing i with
  | zero => rfl
  | succ n ih =>
      refine typed_call fun r => ⟨_, .create, ?_⟩
      cases r with
      | ok u => exact ih (i + 1)
      | error err =>
          dsimp only
          split
          · exact ih (i + 1)
          · rfl

theorem typed_get (d : DLQ) (ctx : Ctx) (id : StreamID) :
    Typed (control D) (fun _ y => y = .operator) (d.get ctx id) .operator := by
  refine typed_call fun r => ⟨_, .fetch, ?_⟩
  match r with
  | .error err => rfl
  | .ok [] => rfl
  | .ok (msg :: rest) => rfl

theorem typed_delete (d : DLQ) (ctx : Ctx) (id : StreamID) :
    Typed (control D) (fun _ y => y = .operator) (d.delete ctx id) .operator := by
  refine typed_call fun r => ⟨_, .delete, ?_⟩
  cases r with
  | error err => rfl
  | ok n =>
      dsimp only
      split <;> rfl

theorem typed_requeue (d : DLQ) (ctx : Ctx) (id : StreamID) (stream : String) (maxLen : Int64) :
    Typed (control D) (fun _ y => y = .operator) (d.requeue ctx id stream maxLen) .operator := by
  refine (typed_get d ctx id).seq ?_
  rintro res _ rfl
  cases res with
  | error err => rfl
  | ok entry =>
      dsimp only
      cases entry.jobData with
      | none => rfl
      | some job =>
          dsimp only
          cases buildXAddArgs stream maxLen (DLQ.resetForRequeue job) with
          | error err => rfl
          | ok args =>
              refine typed_call fun r => ⟨_, .requeue, ?_⟩
              cases r with
              | error err => rfl
              | ok new =>
                  refine (typed_delete d ctx id).seq ?_
                  rintro res _ rfl
                  rfl

theorem typed_requeueAndNote (id : StreamID) (stream : String) (maxLen : Int64) :
    Typed (control D) (fun _ y => y = .operator) (requeueAndNote D id stream maxLen)
      .operator := by
  refine (typed_requeue D.dlq .background id stream maxLen).seq ?_
  rintro res _ rfl
  match res with
  | none => rfl
  | some (.error err) => rfl
  | some (.ok u) => exact fun _ => ⟨_, .requeued, rfl⟩

-- ============================================================================
-- The goroutine of a message
-- ============================================================================

theorem typed_callDownstream (run : Nat) (e : JobEnvelope) :
    Typed (control D) (fun _ y => y = .active run) (callDownstream e) (.active run) :=
  fun _ => ⟨_, .invoke, fun _ => ⟨_, .await, rfl⟩⟩

theorem typed_process (run : Nat) (p : Processor) (e : JobEnvelope) :
    Typed (control D) (fun _ y => y = .active run) (p.process e) (.active run) := by
  cases p with
  | downstream => exact typed_callDownstream run e
  | deduplicating ttl =>
      refine typed_call fun r => ⟨_, .command trivial, ?_⟩
      match r with
      | .error err => rfl
      | .ok true => exact typed_callDownstream run e
      | .ok false => rfl

theorem typed_ack (run : Nat) (c : Consumer) (ctx : Ctx) (id : StreamID) :
    Typed (control D) (fun _ y => y = .active run) (c.ack ctx id) (.active run) := by
  refine typed_call fun r => ⟨_, .command trivial, ?_⟩
  cases r with
  | error err => rfl
  | ok n => rfl

theorem typed_send (run : Nat) (d : DLQ) (ctx : Ctx) (entry : DLQEntry) :
    Typed (control D) (fun _ y => y = .active run) (d.send ctx entry) (.active run) := by
  unfold DLQ.send
  cases dlqEntryStruct.marshal entry with
  | error err => rfl
  | ok text =>
      refine typed_call fun r => ⟨_, .command trivial, ?_⟩
      cases r with
      | error err => rfl
      | ok id => rfl

theorem typed_giveUp (run : Nat) (c : Consumer) (ctx : Ctx) (e : JobEnvelope) (id : StreamID)
    (err : String) :
    Typed (control D) (fun _ y => y = .active run) (c.giveUp ctx e id err) (.active run) := by
  unfold Consumer.giveUp
  cases c.dlq with
  | none => rfl
  | some dlq =>
      intro now
      refine ⟨_, .time, (typed_send run dlq ctx _).seq ?_⟩
      rintro res _ rfl
      rfl

theorem typed_retry (run : Nat) (c : Consumer) (ctx : Ctx) (e : JobEnvelope) (id : StreamID)
    (err : String) :
    Typed (control D) (fun _ y => y = .active run) (c.retry ctx e id err) (.active run) := by
  unfold Consumer.retry
  dsimp only
  split
  · refine (typed_giveUp run c ctx _ id err).seq ?_
    rintro _ _ rfl
    exact typed_ack run c ctx id
  · cases buildXAddArgs c.streamName 0 (Consumer.failedOnce e err) with
    | error err => rfl
    | ok args =>
        refine typed_call fun r => ⟨_, .command trivial, ?_⟩
        cases r with
        | error err => rfl
        | ok new => exact typed_ack run c ctx id

theorem typed_processMessage (w : Worker) (e : JobEnvelope) (id : StreamID) :
    Typed (control D) (fun _ y => y = .active w.run) (w.processMessage e id) (.active w.run) := by
  refine (typed_process w.run w.processor e).seq ?_
  rintro res _ rfl
  cases res with
  | some err =>
      refine (typed_retry w.run w.consumer _ e id err).seq ?_
      rintro _ _ rfl
      rfl
  | none =>
      refine (typed_ack w.run w.consumer _ id).seq ?_
      rintro _ _ rfl
      rfl

/-- The goroutine of a message counts itself on and off and releases its permit
    once. -/
theorem typed_jobGoroutine (w : Worker) (e : JobEnvelope) (id : StreamID) :
    Typed (control D) (fun _ y => y = .over) (w.jobGoroutine e id) (.spawned w.run) := by
  intro _
  refine ⟨_, .enter, (typed_processMessage w e id).seq ?_⟩
  rintro _ _ rfl
  exact fun _ => ⟨_, .done, fun _ => ⟨_, .release, rfl⟩⟩

-- ============================================================================
-- The loops of a worker
-- ============================================================================

theorem typed_consume (run : Nat) (c : Consumer) (ctx : Ctx) (block : Duration) :
    Typed (control D) (fun _ y => y = .polling run) (c.consume ctx block) (.polling run) := by
  refine typed_call fun r => ⟨_, .read, ?_⟩
  match r with
  | .error .nil => rfl
  | .error (.server msg) => rfl
  | .error .context => rfl
  | .ok [] => rfl
  | .ok (msg :: rest) => rfl

theorem typed_pollLoop (w : Worker) (rounds : Nat) :
    Typed (control D) (fun _ y => y = .polling w.run) (w.pollLoop rounds) (.polling w.run) := by
  induction rounds with
  | zero => rfl
  | succ rounds ih =>
      refine typed_call fun b => ⟨_, .poll, ?_⟩
      cases b with
      | true => rfl
      | false =>
          refine (typed_consume w.run w.consumer _ _).seq ?_
          rintro res _ rfl
          match res with
          | .error err =>
              refine typed_call fun b => ⟨_, .backoff, ?_⟩
              cases b with
              | true => rfl
              | false => exact ih
          | .ok none => exact ih
          | .ok (some (e, id)) =>
              intro b
              cases b with
              | true => exact ⟨_, .acquire, fun _ => ⟨_, .dispatch, ih⟩⟩
              | false => exact ⟨_, .refused, rfl⟩

theorem typed_dispatchAll (w : Worker) (claimed : List (JobEnvelope × StreamID)) :
    Typed (control D) (fun _ y => y = .reclaiming w.run) (w.dispatchAll claimed)
      (.reclaiming w.run) := by
  induction claimed with
  | nil => rfl
  | cons m rest ih =>
      intro b
      cases b with
      | true => exact ⟨_, .take, fun _ => ⟨_, .hand, ih⟩⟩
      | false => exact ⟨_, .denied, rfl⟩

theorem typed_reclaimPages (run : Nat) (c : Consumer) (idle : Duration) (batch : Int64)
    (pages : Nat) (cursor : StreamID) (all : List (JobEnvelope × StreamID)) :
    Typed (control D) (fun _ y => y = .reclaiming run)
      (c.reclaimPages run idle batch pages cursor all) (.reclaiming run) := by
  induction pages generalizing cursor all with
  | zero => rfl
  | succ pages ih =>
      refine typed_call fun r => ⟨_, .claim, ?_⟩
      match r with
      | .error .nil => rfl
      | .error (.server msg) => rfl
      | .error .context => rfl
      | .ok (messages, next) =>
          dsimp only
          split
          · rfl
          · refine typed_call fun b => ⟨_, .page, ?_⟩
            cases b with
            | true => rfl
            | false => exact ih next _

theorem typed_reclaimStale (w : Worker) (pages : Nat) :
    Typed (control D) (fun _ y => y = .reclaiming w.run) (w.reclaimStale pages)
      (.reclaiming w.run) := by
  refine (typed_reclaimPages w.run w.consumer _ _ pages .zero []).seq ?_
  rintro res _ rfl
  match res with
  | none => rfl
  | some (_, some err) => rfl
  | some (claimed, none) =>
      refine (typed_dispatchAll w claimed).seq ?_
      rintro _ _ rfl
      rfl

/-- `tryReclaim` ends inside the guarded section or outside of it. -/
theorem typed_tryReclaim (run pages : Nat) :
    Typed (control D) (fun _ y => y = .waiting run ∨ y = .reclaiming run)
      ((D.worker run).tryReclaim pages) (.waiting run) := by
  refine typed_call fun r => ?_
  match r with
  | .error err => exact ⟨_, .lost (by simp), Or.inl rfl⟩
  | .ok false => exact ⟨_, .lost (by simp), Or.inl rfl⟩
  | .ok true =>
      refine ⟨_, .won, (typed_reclaimStale (D.worker run) pages).mono ?_⟩
      exact fun _ _ hy => Or.inr hy

theorem typed_reclaimTicks (run pages ticks : Nat) {x : Stage}
    (hx : x = .waiting run ∨ x = .reclaiming run) :
    Typed (control D) (fun _ y => y = .waiting run ∨ y = .reclaiming run)
      ((D.worker run).reclaimTicks pages ticks) x := by
  induction ticks generalizing x with
  | zero => exact hx
  | succ ticks ih =>
      intro b
      refine ⟨.waiting run, ?_, ?_⟩
      · rcases hx with rfl | rfl
        · exact .tick
        · exact .leave
      · cases b with
        | true => exact Or.inl rfl
        | false => exact (typed_tryReclaim run pages).seq fun _ _ hy => ih hy

theorem typed_reclaimLoop (run pages ticks : Nat) :
    Typed (control D) (fun _ y => y = .waiting run ∨ y = .reclaiming run)
      ((D.worker run).reclaimLoop pages ticks) (.waiting run) :=
  (typed_tryReclaim run pages).seq fun _ _ hy => typed_reclaimTicks run pages ticks hy

-- ============================================================================
-- Every program
-- ============================================================================

/-- The stage in which a program starts. -/
def Job.stage (s : Store) : Job → Stage
  | .enqueue _ => .client
  | .enqueueBatch _ => .client
  | .setupPartitions => .client
  | .poll run _ => .polling run
  | .reclaim run _ _ => .waiting run
  | .process index =>
      match s.ready[index]? with
      | some d => .spawned d.run
      | none => .over
  | .requeue .. => .operator

/-- Every program that can be started follows the automaton. -/
theorem typed_start {t : Nat} {j : Job} {s s' : Store} {p : Program Unit}
    (h : startJob D t j s = some (p, s')) :
    Typed (control D) (fun _ y => y.Final) p (j.stage s) := by
  cases j with
  | enqueue ev =>
      cases h
      refine (typed_enqueueAndNote ev).mono ?_
      rintro _ _ rfl
      trivial
  | enqueueBatch evs =>
      cases h
      refine (typed_enqueueBatch D.cfg.queue .background evs).seq ?_
      rintro _ _ rfl
      trivial
  | setupPartitions =>
      cases h
      refine (typed_setupPartitionsFrom D.cfg.queue .background _ _).seq ?_
      rintro _ _ rfl
      trivial
  | poll run rounds =>
      cases h
      refine (typed_pollLoop (D.worker run) rounds).mono ?_
      rintro _ _ rfl
      trivial
  | reclaim run pages ticks =>
      cases h
      refine (typed_reclaimLoop run pages ticks).mono ?_
      rintro _ _ (rfl | rfl) <;> trivial
  | requeue id stream maxLen =>
      cases h
      refine (typed_requeueAndNote id stream maxLen).mono ?_
      rintro _ _ rfl
      trivial
  | process index =>
      simp only [startJob] at h
      split at h
      · next d hd =>
          cases h
          simp only [Job.stage, hd]
          refine (typed_jobGoroutine (D.worker d.run) d.envelope d.id).mono ?_
          rintro _ _ rfl
          trivial
      · cases h

-- ============================================================================
-- Live tasks
-- ============================================================================

/-- The next call of a task. -/
def nextCall {D : Deployment} (c : Conf (world D)) (t : Nat) : Option Op :=
  match c.tasks t with
  | some (.call o _) => some o
  | _ => none

theorem nextCall_eq_some {c : Conf (world D)} {t : Nat} {o : Op} :
    nextCall c t = some o ↔ ∃ k, c.tasks t = some (.call o k) := by
  unfold nextCall
  split
  · next o' k h =>
      constructor
      · intro heq
        cases heq
        exact ⟨k, h⟩
      · rintro ⟨k', h'⟩
        rw [h] at h'
        cases h'
        rfl
  · next hne => simpa using fun k h => hne o k h

theorem Op.res_nonempty (o : Op) : Nonempty o.Res := by
  cases o with
  | uuid => exact ⟨""⟩
  | now => exact ⟨.epoch⟩
  | redis ctx c => exact ⟨.error .nil⟩
  | await e => exact ⟨none⟩
  | ctxDone run => exact ⟨true⟩
  | timerOrDone run => exact ⟨true⟩
  | semAcquire run => exact ⟨true⟩
  | invoke e => exact ⟨()⟩
  | goProcess run e id => exact ⟨()⟩
  | jobBegin run => exact ⟨()⟩
  | jobDone run => exact ⟨()⟩
  | jobEnd run => exact ⟨()⟩
  | note n => exact ⟨()⟩

end

end LogPipeline.Cluster
