/-
  LogPipeline.Ingestion.Gateway

  The ingestion service (`internal/ingestion`): the handlers, `Service.IngestLog`, and the
  throttler as it runs beside them.

  The metrics of a throttler are four atomic cells.  `updateMetrics` stores them one after
  the other and `Decision` loads them one after the other, so a decision may see cells of
  different updates; `Throttler.updateMetrics` and `Throttler.decision` are what the two
  compute when nothing comes between.

  Any number of ingestion processes run beside the workers of a deployment.  They are a
  front end of its cluster: what they do to the server is `Enqueue`, and the XLEN and
  XPENDING of the throttler read it.
-/

import LogPipeline.Cluster.World
import LogPipeline.Conc.Front
import LogPipeline.Ingestion.Throttler

namespace LogPipeline.Ingestion

open Conc Go Redis Cluster Queue Bootstrap

-- ============================================================================
-- Requests and responses
-- ============================================================================

/-- A request to one of the two API routes.  The body is the first JSON value of what was
    sent: the decoder does not look further. -/
inductive Request where
  | logs (body : Text)
  | testFailure

/-- `IngestResponse` and `ErrorResponse`. -/
inductive Body where
  | ingest (accepted : Bool) (id : String)
  | error (message : String)
deriving DecidableEq

structure Response where
  status : Nat
  /-- The `Retry-After` header. -/
  retryAfter : Option String
  body : Body
deriving DecidableEq

-- ============================================================================
-- The state of a process
-- ============================================================================

/-- The fields of `ThrottlerMetrics`. -/
inductive Metric where
  | streamDepth
  | pendingCount
  | oldestMessageAge
  | lastUpdated
deriving DecidableEq

/-- An `atomic.Int64`, with the number of stores to it so far. -/
structure Cell where
  value : Int64
  version : Nat
deriving DecidableEq

/-- A cell that was never stored to. -/
def Cell.zero : Cell := ⟨0, 0⟩

/-- A `sync.Once`. -/
inductive Once where
  | ready
  | running
  | finished
deriving DecidableEq

structure Process where
  /-- `SetupThrottler` was called. -/
  started : Bool
  cells : Metric → Cell
  /-- `t.ctx` is done. -/
  cancelled : Bool
  /-- The counter of `t.wg`. -/
  wg : Nat
  stopOnce : Once

namespace Process

/-- Before `run` has set anything up. -/
def init : Process := ⟨false, fun _ => .zero, false, 0, .ready⟩

def store (x : Process) (m : Metric) (v : Int64) : Process :=
  { x with cells := Function.update x.cells m ⟨v, (x.cells m).version + 1⟩ }

end Process

-- ============================================================================
-- The calls
-- ============================================================================

/-- What the code of process `p` asks of its surroundings, besides the calls of
    `Enqueue`. -/
inductive Call where
  /-- `time.Now()`, as the timestamp of an event. -/
  | timestamp
  /-- `time.Now()`. -/
  | now
  | load (p : Nat) (m : Metric)
  | store (p : Nat) (m : Metric) (v : Int64)
  /-- A Redis command of the throttler, with a context under `t.ctx`. -/
  | query (p : Nat) (cmd : Cmd)
  /-- `select` on `t.ctx` and the ticker: did the context win? -/
  | tick (p : Nat)
  /-- The deferred `t.wg.Done()`. -/
  | wgDone (p : Nat)
  /-- `t.stopOnce.Do` is entered: does this call run the function? -/
  | onceEnter (p : Nat)
  | cancel (p : Nat)
  | wgWait (p : Nat)
  /-- The function of `t.stopOnce.Do` returns. -/
  | onceLeave (p : Nat)
  | respond (r : Response)

@[reducible] def Call.Res : Call → Type
  | .timestamp => Timestamp
  | .now => Instant
  | .load .. => Int64
  | .store .. => Unit
  | .query _ cmd => Except RedisError cmd.Reply
  | .tick _ => Bool
  | .wgDone _ => Unit
  | .onceEnter _ => Bool
  | .cancel _ => Unit
  | .wgWait _ => Unit
  | .onceLeave _ => Unit
  | .respond _ => Unit

def calls : Sig := ⟨Call, Call.Res⟩

/-- A program of an ingestion process. -/
abbrev Handler (α : Type) := Prog (sig.plus calls) α

/-- Make one call. -/
def ask (o : Call) : Handler o.Res := Prog.perform (S := sig.plus calls) (.inr o)

-- ============================================================================
-- The throttler
-- ============================================================================

/-- The calls the producer and the consumer make for the throttler: its commands, and
    the clock. -/
def observing (p : Nat) : (o : Op) → Handler (sig.Res o)
  | .redis _ cmd => ask (.query p cmd)
  | .now => ask .now
  | o => Prog.perform (S := sig.plus calls) (.inl o)

/-- `updateMetrics`. -/
def updateMetrics (t : Throttler) (p : Nat) : Handler Unit := do
  match ← (streamLength t.producer .background).interp (observing p) with
  | .error _ => return ()
  | .ok depth =>
      let (pending, oldestAge) :=
        match ← (t.getPendingMetrics .background).interp (observing p) with
        | .error _ => (0, 0)
        | .ok figures => figures
      ask (.store p .streamDepth depth)
      ask (.store p .pendingCount pending)
      ask (.store p .oldestMessageAge oldestAge)
      let now ← ask .now
      ask (.store p .lastUpdated now.unix)

/-- The loop of `metricsUpdater`, for at most `n` rounds. -/
def metricsLoop (t : Throttler) (p : Nat) : Nat → Handler Unit
  | 0 => return ()
  | n + 1 => do
      if ← ask (.tick p) then ask (.wgDone p)
      else
        updateMetrics t p
        metricsLoop t p n

/-- `metricsUpdater`. -/
def metricsUpdater (t : Throttler) (p rounds : Nat) : Handler Unit := do
  updateMetrics t p
  metricsLoop t p rounds

/-- `computeRetryAfter`: the pending count is loaded when it is needed. -/
def computeRetryAfter (t : Throttler) (p : Nat) (depth : Int64) (oldestAge : Duration) :
    Handler Duration :=
  if t.config.estimatedDrainRate ≤ 0 then return t.config.minRetryAfter
  else do
    let pending ← ask (.load p .pendingCount)
    return t.computeRetryAfter { ThrottlerMetrics.zero with pendingCount := pending }
      depth oldestAge

/-- `Decision`; without a throttler that of the `NoopThrottler`. -/
def decision (throttler : Option Throttler) (p : Nat) : Handler (ThrottleDecision × Duration) :=
  match throttler with
  | none => return (.allow, 0)
  | some t =>
      if t.config.enabled = false then return (.allow, 0)
      else do
        let lastUpdated ← ask (.load p .lastUpdated)
        let now ← ask .now
        if now.since lastUpdated > 2 * t.config.metricsUpdateInterval then return (.allow, 0)
        else
          let depth ← ask (.load p .streamDepth)
          let age ← ask (.load p .oldestMessageAge)
          let oldestAge : Duration := age * second
          let overloadScore := t.overloadScore depth oldestAge
          if overloadScore > t.config.circuitOpenScore then return (.circuitOpen, 0)
          else if overloadScore > t.config.rateLimitScore then
            let retryAfter ← computeRetryAfter t p depth oldestAge
            return (.rateLimit, retryAfter)
          else return (.allow, 0)

/-- `Stop`.  The throttler was started, so there is a context to cancel. -/
def stop (throttler : Option Throttler) (p : Nat) : Handler Unit :=
  match throttler with
  | none => return ()
  | some _ => do
      if ← ask (.onceEnter p) then
        ask (.cancel p)
        ask (.wgWait p)
        ask (.onceLeave p)

-- ============================================================================
-- The service
-- ============================================================================

/-- The errors of `IngestLog`. -/
inductive IngestError where
  | circuitOpen
  | rateLimited (retryAfter : Duration)
  | validationFailed
  | enqueueFailed (err : String)

/-- `validateLogEvent`. -/
def validateLogEvent (ev : LogEvent) : Option String :=
  if ev.level = "" then some "log level is required"
  else if ev.message = "" then some "log message is required"
  else none

/-- The ingestion processes of a deployment. -/
structure Gateway where
  D : Deployment
  /-- The consumer id of the throttler, for each process. -/
  throttlerConsumerID : Nat → String

namespace Gateway

variable (G : Gateway)

/-- The throttler of a process. -/
def throttler (p : Nat) : Option Throttler := setupThrottler G.D.cfg (G.throttlerConsumerID p)

/-- `IngestLog`.  The context of a request is done when its client goes away; that is one of
    the ways the XADD of `Enqueue` fails.  A success is noted. -/
def ingestLog (p : Nat) (ev : LogEvent) : Handler (Except IngestError StreamID) := do
  let (decision, retryAfter) ← decision (G.throttler p) p
  match decision with
  | .circuitOpen => return .error .circuitOpen
  | .rateLimit => return .error (.rateLimited retryAfter)
  | .allow =>
      match validateLogEvent ev with
      | some _ => return .error .validationFailed
      | none =>
          match ← (enqueue G.D.cfg.queue .background ev).base with
          | .error err => return .error (.enqueueFailed err)
          | .ok messageID =>
              (call (.note (.enqueued messageID))).base
              return .ok messageID

-- ============================================================================
-- The handlers
-- ============================================================================

/-- `respondError`. -/
def respondError (status : Nat) (message : String) : Handler Unit :=
  ask (.respond ⟨status, none, .error message⟩)

/-- `Duration.Seconds`. -/
def seconds (d : Duration) : Rat := float64 d / float64 second

/-- The response to a refused event. -/
def refusal : IngestError → Response
  | .rateLimited retryAfter =>
      let retryAfterSec := truncate (seconds retryAfter)
      ⟨429, some (formatInt retryAfterSec),
        .error ("rate limited - retry after " ++ formatInt retryAfterSec ++ " seconds")⟩
  | .circuitOpen => ⟨503, none, .error "system overloaded - try again later"⟩
  | .validationFailed => ⟨400, none, .error "invalid log event"⟩
  | .enqueueFailed _ => ⟨500, none, .error "failed to process log"⟩

/-- The response to an event that was enqueued. -/
def acceptance (messageID : StreamID) : Response := ⟨202, none, .ingest true messageID.toString⟩

/-- The event of a decoded body: one without a timestamp gets the current time. -/
def defaultTimestamp (ev : LogEvent) : Handler LogEvent :=
  if ev.timestamp.isZero then do
    let now ← ask .timestamp
    return { ev with timestamp := now }
  else return ev

/-- `HandleLogs`. -/
def handleLogs (p : Nat) (body : Text) : Handler Unit := do
  match logEventStruct.unmarshal .zero body with
  | .error _ => respondError 400 "invalid request body"
  | .ok logEvent =>
      let logEvent ← defaultTimestamp logEvent
      match ← G.ingestLog p logEvent with
      | .error err => ask (.respond (refusal err))
      | .ok messageID => ask (.respond (acceptance messageID))

/-- The event of `HandleTestFailure`. -/
def testLog (now : Timestamp) : LogEvent where
  timestamp := now
  level := "INFO"
  service := "test-service"
  message := "Hardcoded test log event from ingestion"
  metadata := .map (JsonMap.empty.insert "force_failure" ⟨.bool true, rfl⟩)
  traceID := "trace-test-456"

/-- `HandleTestFailure`. -/
def handleTestFailure (p : Nat) : Handler Unit := do
  let now ← ask .timestamp
  match ← G.ingestLog p (testLog now) with
  | .error _ => respondError 500 "failed to ingest log"
  | .ok messageID => ask (.respond (acceptance messageID))

/-- The handler of a request. -/
def handle (p : Nat) : Request → Handler Unit
  | .logs body => G.handleLogs p body
  | .testFailure => G.handleTestFailure p

end Gateway

-- ============================================================================
-- The front end
-- ============================================================================

/-- What is recorded of the ingestion processes. -/
inductive GatewayEv where
  /-- A request was received. -/
  | received (p : Nat) (req : Request)
  /-- The metrics updater was started. -/
  | updating (p : Nat)
  | stamped (t : Timestamp)
  | clock (now : Instant)
  | loaded (p : Nat) (m : Metric) (cell : Cell)
  | stored (p : Nat) (m : Metric) (cell : Cell)
  | queried (p : Nat) (cmd : Cmd) (reply : Except RedisError cmd.Reply)
  /-- The metrics updater returned. -/
  | exited (p : Nat)
  /-- `Stop` was called. -/
  | stopping (p : Nat)
  /-- `t.wg.Wait()` returned. -/
  | waited (p : Nat)
  /-- `Stop` is about to return. -/
  | stopped (p : Nat)
  | responded (r : Response)

/-- What the environment decides about one call. -/
structure GatewayChoice where
  /-- The command fails with this error. -/
  fail : Option String := none
  clock : Instant := .epoch
  timestamp : Timestamp := .zero
  /-- Whether the ticker wins against a context that is done as well. -/
  ticker : Bool := false

inductive GatewayMove where
  /-- The process is told to shut down: its context, and with it `t.ctx`, is done. -/
  | signal (p : Nat)

inductive GatewayJob where
  /-- `SetupThrottler`, with at most this many rounds of the updater. -/
  | setup (p rounds : Nat)
  | request (p : Nat) (req : Request)
  | stop (p : Nat)

/-- The commands that only read. -/
def isQuery : Cmd → Bool
  | .xLen _ => true
  | .xPending .. => true
  | _ => false

/-- The reply to a command of the throttler: not sent with a context that is done, lost if
    the environment says so, else what the server has. -/
def reply (fail : Option String) (x : Process) (cmd : Cmd) (s : Store) :
    Option (Except RedisError cmd.Reply) :=
  if x.cancelled then some (.error .context)
  else
    match fail with
    | some msg => some (.error (.server msg))
    | none => if isQuery cmd then (runCmd {} s cmd).map (·.1) else none

namespace Gateway

variable (G : Gateway)

/-- What one call does. -/
def exec (ch : GatewayChoice) : (o : Call) → Store → (Nat → Process) →
    Option (o.Res × (Nat → Process) × Option GatewayEv)
  | .timestamp, _, l => some (ch.timestamp, l, some (.stamped ch.timestamp))
  | .now, _, l => some (ch.clock, l, some (.clock ch.clock))
  | .load p m, _, l => some (((l p).cells m).value, l, some (.loaded p m ((l p).cells m)))
  | .store p m v, _, l =>
      some ((), Function.update l p ((l p).store m v),
        some (.stored p m (((l p).store m v).cells m)))
  | .query p cmd, s, l => (reply ch.fail (l p) cmd s).map fun r => (r, l, some (.queried p cmd r))
  | .tick p, _, l => some ((l p).cancelled && !ch.ticker, l, none)
  | .wgDone p, _, l =>
      some ((), Function.update l p { l p with wg := (l p).wg - 1 }, some (.exited p))
  | .onceEnter p, _, l =>
      match (l p).stopOnce with
      | .ready => some (true, Function.update l p { l p with stopOnce := .running }, none)
      | .running => none
      | .finished => some (false, l, none)
  | .cancel p, _, l => some ((), Function.update l p { l p with cancelled := true }, none)
  | .wgWait p, _, l => if (l p).wg = 0 then some ((), l, some (.waited p)) else none
  | .onceLeave p, _, l =>
      some ((), Function.update l p { l p with stopOnce := .finished }, some (.stopped p))
  | .respond r, _, l => some ((), l, some (.responded r))

def move : GatewayMove → (Nat → Process) → Option ((Nat → Process) × Option GatewayEv)
  | .signal p, l => some (Function.update l p { l p with cancelled := true }, none)

/-- A process is set up once; then it serves requests and is stopped. -/
def startJob : GatewayJob → (Nat → Process) →
    Option (Handler Unit × (Nat → Process) × Option GatewayEv)
  | .setup p rounds, l =>
      if (l p).started then none
      else
        match G.throttler p with
        | none => some (.ret (), Function.update l p { l p with started := true }, none)
        | some t =>
            some (metricsUpdater t p rounds,
              Function.update l p { l p with started := true, wg := (l p).wg + 1 },
              some (.updating p))
  | .request p req, l =>
      if (l p).started then some (G.handle p req, l, some (.received p req)) else none
  | .stop p, l =>
      if (l p).started then some (Ingestion.stop (G.throttler p) p, l, some (.stopping p)) else none

/-- The ingestion processes as a front end of the cluster. -/
@[reducible] def front : Front (Cluster.world G.D) calls where
  Local := Nat → Process
  Ev := GatewayEv
  Choice := GatewayChoice
  Env := GatewayMove
  Job := GatewayJob
  exec := exec
  env := move
  start := G.startJob

/-- The cluster with its ingestion processes. -/
@[reducible] def world : World (sig.plus calls) := G.front.world

/-- Before anything was started. -/
def init : FrontStore G.front := ⟨Store.init, fun _ => .init, []⟩

end Gateway

-- ============================================================================
-- What the calls record
-- ============================================================================

/-- What a call to the cluster records. -/
def clusterLogs : (o : Op) → o.Res → List Ev → Prop
  | .uuid, r, evs => evs = [.minted r]
  | .now, _, evs => evs = []
  | .redis ctx cmd, r, evs => ∃ now, evs = [.cmd ctx cmd r now]
  | .invoke e, _, evs => evs = [.invoked e]
  | .await e, r, evs => evs = [.returned e r]
  | .ctxDone _, _, evs => evs = []
  | .timerOrDone _, _, evs => evs = []
  | .semAcquire _, _, evs => evs = []
  | .goProcess .., _, evs => evs = []
  | .jobBegin _, _, evs => evs = []
  | .jobDone _, _, evs => evs = []
  | .jobEnd run, _, evs => evs = [.finished run]
  | .note n, _, evs => evs = [.noted n]

theorem ownEvents_record {s s₁ : Store} (h : s₁.log = s.log) (t : Nat) (ev : Ev) :
    ownEvents (s₁.record (some t) ev).log t = [ev] ++ ownEvents s.log t := by
  rw [Store.record, ← h]
  exact ownEvents_cons_self rfl

theorem exec_clusterLogs {D : Deployment} {t : Nat} {ch : Choice} {o : Op} {s s' : Store}
    {r : o.Res} (h : Cluster.exec D t ch o s = some (r, s')) :
    ∃ evs, clusterLogs o r evs ∧ ownEvents s'.log t = evs ++ ownEvents s.log t := by
  cases o with
  | redis ctx cmd =>
      obtain ⟨s₁, hans, rfl⟩ := exec_redis h
      exact ⟨_, ⟨_, rfl⟩, ownEvents_record (answer_frame hans).log t _⟩
  | semAcquire run =>
      refine ⟨[], rfl, ?_⟩
      simp only [Cluster.exec] at h
      split at h
      · cases h
        rfl
      · split at h
        · cases h
          rfl
        · cases h
  | uuid | invoke | await | note | jobEnd =>
      cases h
      exact ⟨_, rfl, ownEvents_record rfl t _⟩
  | now | ctxDone | timerOrDone | goProcess | jobBegin | jobDone =>
      cases h
      exact ⟨[], rfl, rfl⟩

def clusterJournal (D : Deployment) : Journal (Cluster.world D) := ⟨clusterLogs, exec_clusterLogs⟩

/-- What a call of an ingestion process records. -/
def gatewayLogs : (o : Call) → o.Res → Option GatewayEv → Prop
  | .timestamp, r, ev => ev = some (.stamped r)
  | .now, r, ev => ev = some (.clock r)
  | .load p m, r, ev => ∃ cell : Cell, cell.value = r ∧ ev = some (.loaded p m cell)
  | .store p m v, _, ev => ∃ cell : Cell, cell.value = v ∧ ev = some (.stored p m cell)
  | .query p cmd, r, ev => ev = some (.queried p cmd r)
  | .tick _, _, ev => ev = none
  | .wgDone p, _, ev => ev = some (.exited p)
  | .onceEnter _, _, ev => ev = none
  | .cancel _, _, ev => ev = none
  | .wgWait p, _, ev => ev = some (.waited p)
  | .onceLeave p, _, ev => ev = some (.stopped p)
  | .respond r, _, ev => ev = some (.responded r)

theorem exec_gatewayLogs {ch : GatewayChoice} {o : Call} {s : Store} {l l' : Nat → Process}
    {r : o.Res} {ev : Option GatewayEv} (h : Gateway.exec ch o s l = some (r, l', ev)) :
    gatewayLogs o r ev := by
  cases o with
  | query p cmd =>
      obtain ⟨r', -, heq⟩ := Option.map_eq_some_iff.mp h
      cases heq
      rfl
  | onceEnter p =>
      simp only [Gateway.exec] at h
      split at h <;> cases h <;> rfl
  | wgWait p =>
      simp only [Gateway.exec] at h
      split at h
      · cases h
        rfl
      · cases h
  | load p m =>
      cases h
      exact ⟨_, rfl, rfl⟩
  | store p m v =>
      cases h
      refine ⟨_, ?_, rfl⟩
      simp [Process.store]
  | timestamp | now | tick | wgDone | cancel | onceLeave | respond =>
      cases h
      rfl

namespace Gateway

variable (G : Gateway)

/-- The journal of the cluster with its ingestion processes. -/
def journal : Journal G.world := G.front.journal (clusterJournal G.D) gatewayLogs exec_gatewayLogs

/-- Every call has an answer. -/
theorem journal_answers (o : (sig.plus calls).Op) : ∃ r evs, G.journal.Logs o r evs := by
  cases o with
  | inl o =>
      cases o with
      | uuid => exact ⟨"", _, _, rfl, rfl⟩
      | now => exact ⟨Instant.epoch, _, _, rfl, rfl⟩
      | redis ctx cmd => exact ⟨.error .nil, _, _, ⟨0, rfl⟩, rfl⟩
      | await e => exact ⟨none, _, _, rfl, rfl⟩
      | ctxDone | timerOrDone | semAcquire => exact ⟨false, _, _, rfl, rfl⟩
      | _ => exact ⟨(), _, _, rfl, rfl⟩
  | inr o =>
      cases o with
      | timestamp => exact ⟨Timestamp.zero, _, _, rfl, rfl⟩
      | now => exact ⟨Instant.epoch, _, _, rfl, rfl⟩
      | load p m => exact ⟨(0 : Int64), _, _, ⟨Cell.zero, rfl, rfl⟩, rfl⟩
      | store p m v => exact ⟨(), _, _, ⟨⟨v, 0⟩, rfl, rfl⟩, rfl⟩
      | query p cmd => exact ⟨.error .nil, _, _, rfl, rfl⟩
      | tick | onceEnter => exact ⟨false, _, _, rfl, rfl⟩
      | _ => exact ⟨(), _, _, rfl, rfl⟩

end Gateway

end LogPipeline.Ingestion
