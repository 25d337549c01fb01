/-
  LogPipeline.Ingestion.Course

  What the programs of an ingestion process record, from their start to their end.

  A request records one of a few courses to its response (`Answered`), and the metrics
  updater one round after the other (`Rounds`), whatever the answers to their calls.  The
  events of a task, in any run, are the beginning of such a course (`task_course`): the
  results about requests and about the metrics are read off that.
-/

import LogPipeline.Cluster.Protocol
import LogPipeline.Ingestion.Gateway

namespace LogPipeline.Ingestion

open Conc Go Redis Cluster Queue Bootstrap

-- ============================================================================
-- The course of a request
-- ============================================================================

/-- The events of one task of the cluster and its ingestion processes, newest first. -/
abbrev Trace := List (Ev ⊕ GatewayEv)

/-- The metrics whose values are in the given cells. -/
def ThrottlerMetrics.ofCells (m : Metric → Cell) : ThrottlerMetrics where
  streamDepth := (m .streamDepth).value
  pendingCount := (m .pendingCount).value
  oldestMessageAge := (m .oldestMessageAge).value
  lastUpdated := (m .lastUpdated).value

/-- The loads of a decision by metrics that are fresh. -/
def sampled (p : Nat) (m : Metric → Cell) (now : Instant) : List GatewayEv :=
  [.loaded p .oldestMessageAge (m .oldestMessageAge), .loaded p .streamDepth (m .streamDepth),
    .clock now, .loaded p .lastUpdated (m .lastUpdated)]

/-- What `Decision` has recorded when it returns.  It has decided as `Throttler.decision`
    does by the values it loaded, one after the other. -/
inductive Decided (p : Nat) :
    Option Throttler → ThrottleDecision × Duration → List GatewayEv → Prop
  | noop : Decided p none (.allow, 0) []
  | disabled {t : Throttler} : t.config.enabled = false → Decided p (some t) (.allow, 0) []
  | stale {t : Throttler} {m : Metric → Cell} {now : Instant} : t.config.enabled = true →
      t.Stale (.ofCells m) now →
      Decided p (some t) (.allow, 0) [.clock now, .loaded p .lastUpdated (m .lastUpdated)]
  | fresh {t : Throttler} {m : Metric → Cell} {now : Instant} {evs : List GatewayEv} :
      t.config.enabled = true → ¬ t.Stale (.ofCells m) now →
      evs = sampled p m now ∨
        evs = .loaded p .pendingCount (m .pendingCount) :: sampled p m now →
      Decided p (some t) (t.decision (.ofCells m) now) evs

/-- The event a request is about, and whether it was given a timestamp. -/
inductive Chosen : Request → LogEvent → List GatewayEv → Prop
  | decoded {body : Text} {ev : LogEvent} : logEventStruct.unmarshal .zero body = .ok ev →
      ev.timestamp.isZero = false → Chosen (.logs body) ev []
  | stamped {body : Text} {ev : LogEvent} {now : Timestamp} :
      logEventStruct.unmarshal .zero body = .ok ev → ev.timestamp.isZero = true →
      Chosen (.logs body) { ev with timestamp := now } [.stamped now]
  | test {now : Timestamp} : Chosen .testFailure (Gateway.testLog now) [.stamped now]

/-- The XADD of `Enqueue`. -/
def enqueueCmd (D : Deployment) (ev : LogEvent) (text : Text) : Cmd :=
  .xAdd (streamNameFor D.cfg.queue ev.service) D.cfg.queue.maxLen (jobValues text)

/-- What `Enqueue` has recorded when it returns: the new job id and, if the envelope could be
    marshalled, the XADD. -/
inductive Enqueuing (D : Deployment) (ev : LogEvent) : Except String StreamID → List Ev → Prop
  | refused {u : String} {now : Instant} {err : String} :
      envelopeStruct.marshal (D.newEnvelope u ev now) = .error err →
      Enqueuing D ev (.error ("failed to marshal job envelope: " ++ err)) [.minted u]
  | lost {u : String} {now : Instant} {text : Text} {err : RedisError} {at_ : Nat} :
      envelopeStruct.marshal (D.newEnvelope u ev now) = .ok text →
      Enqueuing D ev (.error ("failed to add to stream: " ++ err.text))
        [.cmd .background (enqueueCmd D ev text) (.error err) at_, .minted u]
  | added {u : String} {now : Instant} {text : Text} {id : StreamID} {at_ : Nat} :
      envelopeStruct.marshal (D.newEnvelope u ev now) = .ok text →
      Enqueuing D ev (.ok id) [.cmd .background (enqueueCmd D ev text) (.ok id) at_, .minted u]

/-- What `IngestLog` has recorded when it returns. -/
inductive Ingested (G : Gateway) (p : Nat) (ev : LogEvent) :
    Except IngestError StreamID → Trace → Prop
  | circuitOpen {decided : List GatewayEv} {retryAfter : Duration} :
      Decided p (G.throttler p) (.circuitOpen, retryAfter) decided →
      Ingested G p ev (.error .circuitOpen) (decided.map Sum.inr)
  | rateLimited {decided : List GatewayEv} {retryAfter : Duration} :
      Decided p (G.throttler p) (.rateLimit, retryAfter) decided →
      Ingested G p ev (.error (.rateLimited retryAfter)) (decided.map Sum.inr)
  | invalid {decided : List GatewayEv} {retryAfter : Duration} :
      Decided p (G.throttler p) (.allow, retryAfter) decided → validateLogEvent ev ≠ none →
      Ingested G p ev (.error .validationFailed) (decided.map Sum.inr)
  | failed {decided : List GatewayEv} {retryAfter : Duration} {err : String} {evs : List Ev} :
      Decided p (G.throttler p) (.allow, retryAfter) decided → validateLogEvent ev = none →
      Enqueuing G.D ev (.error err) evs →
      Ingested G p ev (.error (.enqueueFailed err)) (evs.map Sum.inl ++ decided.map Sum.inr)
  | accepted {decided : List GatewayEv} {retryAfter : Duration} {id : StreamID}
      {evs : List Ev} :
      Decided p (G.throttler p) (.allow, retryAfter) decided → validateLogEvent ev = none →
      Enqueuing G.D ev (.ok id) evs →
      Ingested G p ev (.ok id)
        (.inl (.noted (.enqueued id)) :: (evs.map Sum.inl ++ decided.map Sum.inr))

/-- The response of each route to what `IngestLog` returns. -/
def responseTo : Request → Except IngestError StreamID → Response
  | .logs _, .error err => Gateway.refusal err
  | .testFailure, .error _ => ⟨500, none, .error "failed to ingest log"⟩
  | _, .ok messageID => Gateway.acceptance messageID

/-- What a request has recorded when it is about to be answered with the response. -/
inductive Answered (G : Gateway) (p : Nat) (req : Request) : Response → Trace → Prop
  | malformed {body : Text} {err : JsonError} : req = .logs body →
      logEventStruct.unmarshal .zero body = .error err →
      Answered G p req ⟨400, none, .error "invalid request body"⟩ [.inr (.received p req)]
  | ingested {ev : LogEvent} {chosen : List GatewayEv} {r : Except IngestError StreamID}
      {evs : Trace} : Chosen req ev chosen → Ingested G p ev r evs →
      Answered G p req (responseTo req r)
        (evs ++ (chosen ++ [GatewayEv.received p req]).map Sum.inr)

-- ============================================================================
-- The course of the metrics updater
-- ============================================================================

/-- The XLENs of `StreamLength` from partition `i` on, with their replies, oldest first. -/
def lengthEvents (cfg : QueueConfig) (p : Nat) : Int64 → List Nat → List GatewayEv
  | _, [] => []
  | i, n :: ns =>
      .queried p (.xLen (cfg.baseStreamName ++ ":partition:" ++ formatInt i)) (.ok n) ::
        lengthEvents cfg p (i + 1) ns

/-- The lengths, added up. -/
def totalFrom (total : Int64) (ns : List Nat) : Int64 :=
  ns.foldl (fun total n => total + Int64.ofNat n) total

/-- What `getPendingMetrics` has recorded when it returns, and the figures the update takes
    from it. -/
inductive PendingRead (t : Throttler) (p : Nat) : Int64 × Int64 → List GatewayEv → Prop
  | unknown : t.consumer = none → PendingRead t p (0, 0) []
  | failed {c : Consumer} {err : RedisError} : t.consumer = some c →
      PendingRead t p (0, 0) [.queried p (.xPending c.streamName c.consumerGroup) (.error err)]
  | none_pending {c : Consumer} {info : PendingSummary} : t.consumer = some c →
      ¬ (Int64.ofNat info.count > 0 ∧ info.lower ≠ "") →
      PendingRead t p (Int64.ofNat info.count, 0)
        [.queried p (.xPending c.streamName c.consumerGroup) (.ok info)]
  | aged {c : Consumer} {info : PendingSummary} {now : Instant} : t.consumer = some c →
      Int64.ofNat info.count > 0 ∧ info.lower ≠ "" →
      PendingRead t p (Int64.ofNat info.count, Consumer.ageOf info.lower now)
        [.clock now, .queried p (.xPending c.streamName c.consumerGroup) (.ok info)]

/-- Nothing but commands of the throttler. -/
def OnlyQueries (p : Nat) (evs : List GatewayEv) : Prop := ∀ e ∈ evs, ∃ cmd r, e = .queried p cmd r

/-- What one `updateMetrics` has recorded when it returns: some XLENs of which one failed, or
    everything it read and then the four stores. -/
inductive Round (t : Throttler) (p : Nat) : List GatewayEv → Prop
  | failed {evs : List GatewayEv} : OnlyQueries p evs → Round t p evs
  | published {ns : List Nat} {evs : List GatewayEv} {now : Instant}
      {depth pending age updated : Cell} :
      ns.length = t.producer.partitionCount.toInt.toNat → depth.value = totalFrom 0 ns →
      PendingRead t p (pending.value, age.value) evs → updated.value = now.unix →
      Round t p ([.stored p .lastUpdated updated, .clock now, .stored p .oldestMessageAge age,
        .stored p .pendingCount pending, .stored p .streamDepth depth] ++
        (evs ++ (lengthEvents t.producer p 0 ns).reverse))

/-- What the metrics updater has recorded between two rounds. -/
inductive Rounds (t : Throttler) (p : Nat) : Trace → Prop
  | start : Rounds t p [.inr (.updating p)]
  | round {o : Trace} {evs : List GatewayEv} : Rounds t p o → Round t p evs →
      Rounds t p (evs.map Sum.inr ++ o)

-- ============================================================================
-- The handlers keep to it
-- ============================================================================

section

variable {G : Gateway} {α β : Type}

/-- Run a program from the given events; `Q` holds at its end. -/
def Ends (G : Gateway) (Q : α → Trace → Prop) (p : Handler α) (o : Trace) : Prop :=
  Writes G.journal (fun _ => True) Q p o

theorem Ends.seq {R : α → Trace → Prop} {Q : β → Trace → Prop} {p : Handler α}
    {f : α → Handler β} {o : Trace} (hp : Ends G R p o)
    (hf : ∀ a o, R a o → Ends G Q (f a) o) : Ends G Q (p.bind f) o :=
  Writes.seq hp hf

/-- One call of the process. -/
theorem Ends.own {Q : α → Trace → Prop} {c : Call} {k : c.Res → Handler α} {o : Trace}
    (h : ∀ r ev, gatewayLogs c r ev → Ends G Q (k r) ((ev.map Sum.inr).toList ++ o)) :
    Ends G Q (.call (S := sig.plus calls) (.inr c) k) o := by
  rintro r _ ⟨ev, hev, rfl⟩
  exact ⟨trivial, h r ev hev⟩

/-- One call to the cluster. -/
theorem Ends.cluster {Q : α → Trace → Prop} {c : Op} {k : c.Res → Handler α} {o : Trace}
    (h : ∀ r evs, clusterLogs c r evs → Ends G Q (k r) (evs.map Sum.inl ++ o)) :
    Ends G Q (.call (S := sig.plus calls) (.inl c) k) o := by
  rintro r _ ⟨evs, hevs, rfl⟩
  exact ⟨trivial, h r evs hevs⟩

/-- The cells a decision loaded, by metric. -/
def cellsOf (lastUpdated depth age pending : Cell) : Metric → Cell
  | .lastUpdated => lastUpdated
  | .streamDepth => depth
  | .oldestMessageAge => age
  | .pendingCount => pending

theorem Throttler.decision_of_fresh {t : Throttler} {m : ThrottlerMetrics} {now : Instant}
    (hen : t.config.enabled = true) (hfresh : ¬ t.Stale m now) :
    t.decision m now =
      if t.overloadScore m.streamDepth (m.oldestMessageAge * second) >
          t.config.circuitOpenScore then (.circuitOpen, 0)
      else if t.overloadScore m.streamDepth (m.oldestMessageAge * second) >
          t.config.rateLimitScore then
        (.rateLimit, t.computeRetryAfter m m.streamDepth (m.oldestMessageAge * second))
      else (.allow, 0) := by
  unfold decision
  rw [if_neg (by simp [hen]), if_neg hfresh]

theorem ends_decision (throttler : Option Throttler) (p : Nat) (o : Trace) :
    Ends G (fun r o' => ∃ evs, Decided p throttler r evs ∧ o' = evs.map Sum.inr ++ o)
      (decision throttler p) o := by
  cases throttler with
  | none => exact ⟨[], .noop, rfl⟩
  | some t =>
      unfold decision
      dsimp only
      split
      · next hen => exact ⟨[], .disabled hen, rfl⟩
      next hen =>
      have hen : t.config.enabled = true := by simpa using hen
      refine Ends.own ?_
      rintro _ _ ⟨lastUpdated, rfl, rfl⟩
      refine Ends.own ?_
      rintro now _ rfl
      change Ends G _ (if _ then _ else _) _
      split
      · next hstale => exact ⟨_, .stale (m := fun _ => lastUpdated) hen hstale, rfl⟩
      next hfresh =>
      refine Ends.own ?_
      rintro _ _ ⟨depth, rfl, rfl⟩
      refine Ends.own ?_
      rintro _ _ ⟨age, rfl, rfl⟩
      -- whatever the pending count is, the other three cells are the ones loaded
      have hdecided : ∀ pending evs r, t.decision (.ofCells (cellsOf lastUpdated depth age pending))
          now = r → (evs = sampled p (cellsOf lastUpdated depth age pending) now ∨
            evs = .loaded p .pendingCount pending ::
              sampled p (cellsOf lastUpdated depth age pending) now) →
          Decided p (some t) r evs := by
        rintro pending evs _ rfl hevs
        exact .fresh hen hfresh hevs
      have hunfold : ∀ pending, _ := fun pending => Throttler.decision_of_fresh (t := t)
        (m := .ofCells (cellsOf lastUpdated depth age pending)) hen hfresh
      change Ends G _ (if _ then _ else if _ then _ else _) _
      split
      · next hopen =>
          refine ⟨_, hdecided .zero _ _ ((hunfold _).trans ?_) (Or.inl rfl), rfl⟩
          exact if_pos hopen
      next hopen =>
      split
      · next hrate =>
          have hverdict : ∀ pending, _ := fun pending =>
            (hunfold pending).trans ((if_neg hopen).trans (if_pos hrate))
          unfold computeRetryAfter
          split
          · next hdrain =>
              refine ⟨_, hdecided .zero _ _ ((hverdict _).trans ?_) (Or.inl rfl), rfl⟩
              unfold Throttler.computeRetryAfter
              rw [if_pos hdrain]
          · refine Ends.own ?_
            rintro _ _ ⟨pending, rfl, rfl⟩
            exact ⟨_, hdecided pending _ _ (hverdict _) (Or.inr rfl), rfl⟩
      · next hrate =>
          refine ⟨_, hdecided .zero _ _ ((hunfold _).trans ?_) (Or.inl rfl), rfl⟩
          exact (if_neg hopen).trans (if_neg hrate)

theorem ends_enqueue (ev : LogEvent) (o : Trace) :
    Ends G (fun r o' => ∃ evs, Enqueuing G.D ev r evs ∧ o' = evs.map Sum.inl ++ o)
      (enqueue G.D.cfg.queue .background ev).base o := by
  refine Ends.cluster ?_
  rintro u _ rfl
  refine Ends.cluster ?_
  rintro now _ rfl
  change Ends G _ (Prog.base ((Prog.ret (G.D.newEnvelope u ev now)).bind _)) _
  dsimp only [Prog.bind]
  unfold buildXAddArgs
  cases htext : envelopeStruct.marshal (G.D.newEnvelope u ev now) with
  | error err => exact ⟨_, .refused htext, rfl⟩
  | ok text =>
      refine Ends.cluster ?_
      rintro r _ ⟨at_, rfl⟩
      cases r with
      | error err => exact ⟨_, .lost htext, rfl⟩
      | ok id => exact ⟨_, .added htext, rfl⟩

theorem ends_ingestLog (p : Nat) (ev : LogEvent) (o : Trace) :
    Ends G (fun r o' => ∃ evs, Ingested G p ev r evs ∧ o' = evs ++ o) (G.ingestLog p ev) o := by
  refine (ends_decision (G.throttler p) p o).seq ?_
  rintro ⟨verdict, retryAfter⟩ _ ⟨decided, hdecided, rfl⟩
  cases verdict with
  | circuitOpen => exact ⟨_, .circuitOpen hdecided, rfl⟩
  | rateLimit => exact ⟨_, .rateLimited hdecided, rfl⟩
  | allow =>
      dsimp only
      split
      · next err hinvalid => exact ⟨_, .invalid hdecided (by simp [hinvalid]), rfl⟩
      next hvalid =>
      refine (ends_enqueue ev _).seq ?_
      rintro r _ ⟨evs, hevs, rfl⟩
      cases r with
      | error err =>
          refine ⟨_, .failed hdecided hvalid hevs, ?_⟩
          rw [List.append_assoc]
      | ok id =>
          refine Ends.cluster ?_
          rintro _ _ rfl
          refine ⟨_, .accepted hdecided hvalid hevs, ?_⟩
          simp

/-- The part of a handler after the event is chosen. -/
theorem ends_answer (p : Nat) {req : Request} {ev : LogEvent} {chosen : List GatewayEv}
    (hchosen : Chosen req ev chosen) {f : Except IngestError StreamID → Handler Unit}
    (hf : ∀ r, f r = ask (.respond (responseTo req r))) :
    Ends G (fun _ o => ∃ resp o₁, Answered G p req resp o₁ ∧ o = .inr (.responded resp) :: o₁)
      ((G.ingestLog p ev).bind f) ((chosen ++ [GatewayEv.received p req]).map Sum.inr) := by
  refine (ends_ingestLog p ev _).seq ?_
  rintro r _ ⟨evs, hevs, rfl⟩
  rw [hf r]
  refine Ends.own ?_
  rintro _ _ rfl
  exact ⟨_, _, .ingested hchosen hevs, rfl⟩

/-- A request that is answered has taken the course of its answer. -/
theorem ends_handle (p : Nat) (req : Request) :
    Ends G (fun _ o => ∃ resp o₁, Answered G p req resp o₁ ∧ o = .inr (.responded resp) :: o₁)
      (G.handle p req) [.inr (.received p req)] := by
  cases req with
  | logs body =>
      unfold Gateway.handle Gateway.handleLogs
      dsimp only
      split
      · next err hbody =>
          refine Ends.own ?_
          rintro _ _ rfl
          exact ⟨_, _, .malformed rfl hbody, rfl⟩
      next ev hbody =>
      unfold Gateway.defaultTimestamp
      split
      · next hzero =>
          refine Ends.own ?_
          rintro now _ rfl
          exact ends_answer p (.stamped hbody hzero) fun r => by cases r <;> rfl
      · next hzero =>
          exact ends_answer p (.decoded hbody (by simpa using hzero)) fun r => by cases r <;> rfl
  | testFailure =>
      refine Ends.own ?_
      rintro now _ rfl
      refine ends_answer p .test fun r => ?_
      cases r <;> rfl

end

-- ============================================================================
-- The updater keeps to it
-- ============================================================================

section

variable {G : Gateway}

theorem ends_streamLengthFrom (cfg : QueueConfig) (p n : Nat) (i total : Int64) (o : Trace) :
    Ends G (fun r o' => (∃ ns, ns.length = n ∧ r = .ok (totalFrom total ns) ∧
        o' = (lengthEvents cfg p i ns).reverse.map Sum.inr ++ o) ∨
      ∃ err evs, r = .error err ∧ OnlyQueries p evs ∧ o' = evs.map Sum.inr ++ o)
      ((streamLengthFrom cfg .background n i total).interp (observing p)) o := by
  induction n generalizing i total o with
  | zero => exact Or.inl ⟨[], rfl, rfl, rfl⟩
  | succ n ih =>
      refine Ends.own ?_
      rintro r _ rfl
      cases r with
      | error err => exact Or.inr ⟨_, [_], rfl, by simp [OnlyQueries], rfl⟩
      | ok length =>
          refine Writes.mono ?_ (ih (i + 1) (total + Int64.ofNat length) _)
          rintro r o' (⟨ns, hlen, rfl, rfl⟩ | ⟨err, evs, rfl, hevs, rfl⟩)
          · refine Or.inl ⟨length :: ns, by rw [List.length_cons, hlen], rfl, ?_⟩
            simp [lengthEvents]
          · refine Or.inr ⟨err, evs ++ [.queried p (.xLen _) (.ok length)], rfl, ?_, by simp⟩
            intro e he
            rcases List.mem_append.mp he with he | he
            · exact hevs e he
            · exact ⟨_, _, List.mem_singleton.mp he⟩

theorem ends_getPendingMetrics (t : Throttler) (p : Nat) (o : Trace) :
    Ends G (fun r o' => ∃ evs, PendingRead t p (r.toOption.getD (0, 0)) evs ∧
      o' = evs.map Sum.inr ++ o)
      ((t.getPendingMetrics .background).interp (observing p)) o := by
  unfold Throttler.getPendingMetrics
  split
  · next hnone => exact ⟨[], .unknown hnone, rfl⟩
  next c hc =>
  refine Ends.own ?_
  rintro r _ rfl
  cases r with
  | error err =>
      change Ends G _ ((if _ then _ else _ : Program _).interp (observing p)) _
      split
      · exact ⟨_, .failed hc, rfl⟩
      · exact ⟨_, .failed hc, rfl⟩
  | ok info =>
      change Ends G _ ((if _ then _ else _ : Program _).interp (observing p)) _
      split
      · next hpos =>
          refine Ends.own ?_
          rintro now _ rfl
          exact ⟨_, .aged hc hpos, rfl⟩
      · next hzero => exact ⟨_, .none_pending hc hzero, rfl⟩

/-- The four stores of an update. -/
theorem ends_publish {t : Throttler} {p : Nat} {ns : List Nat} {pending oldestAge : Int64}
    {evs : List GatewayEv} (hlen : ns.length = t.producer.partitionCount.toInt.toNat)
    (hevs : PendingRead t p (pending, oldestAge) evs) (o : Trace) :
    Ends G (fun _ o' => ∃ evs, Round t p evs ∧ o' = evs.map Sum.inr ++ o)
      (do
        ask (.store p .streamDepth (totalFrom 0 ns))
        ask (.store p .pendingCount pending)
        ask (.store p .oldestMessageAge oldestAge)
        let now ← ask .now
        ask (.store p .lastUpdated now.unix))
      (evs.map Sum.inr ++ ((lengthEvents t.producer p 0 ns).reverse.map Sum.inr ++ o)) := by
  refine Ends.own ?_
  rintro _ _ ⟨depth, hdepth, rfl⟩
  refine Ends.own ?_
  rintro _ _ ⟨count, rfl, rfl⟩
  refine Ends.own ?_
  rintro _ _ ⟨age, rfl, rfl⟩
  refine Ends.own ?_
  rintro now _ rfl
  refine Ends.own ?_
  rintro _ _ ⟨updated, hupdated, rfl⟩
  refine ⟨_, .published hlen hdepth hevs hupdated, ?_⟩
  simp

theorem ends_updateMetrics (t : Throttler) (p : Nat) (o : Trace) :
    Ends G (fun _ o' => ∃ evs, Round t p evs ∧ o' = evs.map Sum.inr ++ o)
      (updateMetrics t p) o := by
  refine (ends_streamLengthFrom t.producer p _ 0 0 o).seq ?_
  rintro r o' (⟨ns, hlen, rfl, rfl⟩ | ⟨err, evs, rfl, hevs, rfl⟩)
  · refine (ends_getPendingMetrics t p _).seq ?_
    rintro figures _ ⟨evs, hevs, rfl⟩
    cases figures with
    | error err => exact ends_publish hlen hevs o
    | ok figures => exact ends_publish hlen hevs o
  · exact ⟨evs, .failed hevs, rfl⟩

/-- Where the metrics updater ends: between two rounds, or after it has returned. -/
theorem ends_metricsLoop (t : Throttler) (p n : Nat) {o : Trace} (ho : Rounds t p o) :
    Ends G (fun _ o' => ∃ o₁, Rounds t p o₁ ∧ (o' = o₁ ∨ o' = .inr (.exited p) :: o₁))
      (metricsLoop t p n) o := by
  induction n generalizing o with
  | zero => exact ⟨o, ho, Or.inl rfl⟩
  | succ n ih =>
      refine Ends.own ?_
      rintro done _ rfl
      cases done with
      | true =>
          refine Ends.own ?_
          rintro _ _ rfl
          exact ⟨o, ho, Or.inr rfl⟩
      | false =>
          refine (ends_updateMetrics t p _).seq ?_
          rintro _ _ ⟨evs, hevs, rfl⟩
          exact ih (.round ho hevs)

theorem ends_metricsUpdater (t : Throttler) (p rounds : Nat) :
    Ends G (fun _ o' => ∃ o₁, Rounds t p o₁ ∧ (o' = o₁ ∨ o' = .inr (.exited p) :: o₁))
      (metricsUpdater t p rounds) [.inr (.updating p)] := by
  refine (ends_updateMetrics t p _).seq ?_
  rintro _ _ ⟨evs, hevs, rfl⟩
  exact ends_metricsLoop t p rounds (.round .start hevs)

/-- `Stop` has nothing to do, or waits for the updater. -/
theorem ends_stop (throttler : Option Throttler) (p : Nat) :
    Ends G (fun _ o => o = [.inr (.stopping p)] ∨
        (throttler ≠ none ∧ o = [.inr (.stopped p), .inr (.waited p), .inr (.stopping p)]))
      (stop throttler p) [.inr (.stopping p)] := by
  cases throttler with
  | none => exact Or.inl rfl
  | some t =>
      refine Ends.own ?_
      rintro entered _ rfl
      cases entered with
      | false => exact Or.inl rfl
      | true =>
          refine Ends.own ?_
          rintro _ _ rfl
          refine Ends.own ?_
          rintro _ _ rfl
          refine Ends.own ?_
          rintro _ _ rfl
          exact Or.inr ⟨nofun, rfl⟩

/-- A program of the cluster records nothing of the ingestion processes. -/
theorem ends_base (q : Program Unit) (evs : List Ev) :
    Ends G (fun _ o => ∃ evs : List Ev, o = evs.map Sum.inl) q.base (evs.map Sum.inl) := by
  induction q generalizing evs with
  | ret a => exact ⟨evs, rfl⟩
  | call c k ih =>
      refine Ends.cluster ?_
      intro r new hnew
      rw [← List.map_append]
      exact ih r _

end

-- ============================================================================
-- Every task of every run
-- ============================================================================

section

variable {G : Gateway}

theorem Decided.mem {p : Nat} {throttler : Option Throttler} {r : ThrottleDecision × Duration}
    {evs : List GatewayEv} (h : Decided p throttler r evs) :
    ∀ e ∈ evs, (∃ now, e = .clock now) ∨ ∃ m cell, e = .loaded p m cell := by
  cases h with
  | noop => simp
  | disabled => simp
  | stale => simp
  | fresh _ _ hevs => rcases hevs with rfl | rfl <;> simp [sampled]

theorem Chosen.mem {req : Request} {ev : LogEvent} {chosen : List GatewayEv}
    (h : Chosen req ev chosen) : ∀ e ∈ chosen, ∃ now, e = .stamped now := by
  cases h <;> simp

/-- The events of the process itself, while it ingests. -/
theorem Ingested.mem {p : Nat} {ev : LogEvent} {r : Except IngestError StreamID} {evs : Trace}
    (h : Ingested G p ev r evs) {e : GatewayEv} (he : .inr e ∈ evs) :
    (∃ now, e = .clock now) ∨ ∃ m cell, e = .loaded p m cell := by
  cases h with
  | circuitOpen hd => exact hd.mem e (by simpa using he)
  | rateLimited hd => exact hd.mem e (by simpa using he)
  | invalid hd => exact hd.mem e (by simpa using he)
  | failed hd => exact hd.mem e (by simpa using he)
  | accepted hd => exact hd.mem e (by simpa using he)

/-- The events of the process itself, until the request is answered. -/
theorem Answered.mem {p : Nat} {req : Request} {resp : Response} {o : Trace}
    (h : Answered G p req resp o) {e : GatewayEv} (he : .inr e ∈ o) :
    e = .received p req ∨ (∃ now, e = .stamped now) ∨ (∃ now, e = .clock now) ∨
      ∃ m cell, e = .loaded p m cell := by
  cases h with
  | malformed => exact Or.inl (by simpa using he)
  | ingested hchosen hevs =>
      rcases List.mem_append.mp he with he | he
      · exact Or.inr (Or.inr (hevs.mem he))
      · simp only [List.map_append, List.map_cons, List.map_nil, List.mem_append, List.mem_map,
          Sum.inr.injEq, exists_eq_right, List.mem_singleton] at he
        rcases he with he | he
        · exact Or.inr (Or.inl (hchosen.mem e he))
        · exact Or.inl he

/-- What the tasks of a run end with. -/
inductive Finished (G : Gateway) : Trace → Prop
  | cluster (evs : List Ev) : Finished G (evs.map Sum.inl)
  | request {p : Nat} {req : Request} {resp : Response} {o : Trace} :
      Answered G p req resp o → Finished G (.inr (.responded resp) :: o)
  | updater {t : Throttler} {p : Nat} {o o' : Trace} : G.throttler p = some t →
      Rounds t p o → (o' = o ∨ o' = .inr (.exited p) :: o) → Finished G o'
  | stop {p : Nat} {o : Trace} : o = [.inr (.stopping p)] ∨ (G.throttler p ≠ none ∧
      o = [.inr (.stopped p), .inr (.waited p), .inr (.stopping p)]) → Finished G o

/-- What a program has recorded when it starts, and where it ends. -/
theorem ends_start {t : Nat} {j : G.world.Job} {s s' : FrontStore G.front} {q : Handler Unit}
    (hst : G.world.start t j s = some (q, s')) (hnil : ownEvents s.log t = []) :
    Ends G (fun _ => Finished G) q (ownEvents s'.log t) := by
  cases j with
  | inl j =>
      obtain ⟨⟨q', b⟩, hb, heq⟩ := Option.map_eq_some_iff.mp hst
      cases heq
      have hbase : ∀ evs : List Ev, Ends G (fun _ => Finished G) q'.base (evs.map Sum.inl) := by
        intro evs
        refine Writes.mono ?_ (ends_base q' evs)
        rintro _ _ ⟨evs', rfl⟩
        exact .cluster evs'
      rcases s.follow_cases (startJob_records hb) with ⟨-, hs⟩ | ⟨ev, -, hs⟩
      · rw [hs, hnil]
        exact hbase []
      · rw [hs]
        change Ends G _ _ (ownEvents (_ :: s.log) t)
        rw [ownEvents_cons_self rfl, hnil]
        exact hbase [ev]
  | inr j =>
      obtain ⟨⟨q', l, ev⟩, hj, heq⟩ := Option.map_eq_some_iff.mp hst
      cases heq
      rw [FrontStore.ownEvents_note]
      change Ends G _ _ (_ ++ ownEvents s.log t)
      rw [hnil]
      cases j with
      | request p req =>
          simp only [Gateway.startJob] at hj
          split at hj
          · cases hj
            refine Writes.mono ?_ (ends_handle p req)
            rintro _ _ ⟨resp, o, ho, rfl⟩
            exact .request ho
          · cases hj
      | setup p rounds =>
          simp only [Gateway.startJob] at hj
          split at hj
          · cases hj
          split at hj
          · cases hj
            exact Finished.cluster []
          · next thr hthr =>
              cases hj
              refine Writes.mono ?_ (ends_metricsUpdater thr p rounds)
              rintro _ _ ⟨o, ho, heq⟩
              exact .updater hthr ho heq
      | stop p =>
          simp only [Gateway.startJob] at hj
          split at hj
          · cases hj
            exact Writes.mono (fun _ _ => .stop) (ends_stop _ p)
          · cases hj

/-- The events of a task are the beginning of what it ends with. -/
theorem task_course {P : Policy G.world} {c : Conf G.world} (hc : P.Reachable G.init c)
    (t : Nat) : ∃ full, Finished G full ∧ ownEvents c.store.log t <:+ full := by
  have hinit : G.world.hist G.init = [] := rfl
  rcases G.journal.sound_beginning (Q := Finished G) hinit G.journal_answers
    (fun t j s q s' hst hnil => ends_start hst hnil) hc t with hnil | hfull
  · rw [hnil]
    exact ⟨[], .cluster [], List.suffix_rfl⟩
  · exact hfull

theorem PendingRead.mem {t : Throttler} {p : Nat} {figures : Int64 × Int64}
    {evs : List GatewayEv} (h : PendingRead t p figures evs) :
    ∀ e ∈ evs, (∃ now, e = .clock now) ∨ ∃ cmd r, e = .queried p cmd r := by
  cases h <;> simp

theorem lengthEvents_mem {cfg : QueueConfig} {p : Nat} {i : Int64} {ns : List Nat} :
    OnlyQueries p (lengthEvents cfg p i ns) := by
  induction ns generalizing i with
  | nil => exact List.forall_mem_nil _
  | cons n ns ih => exact List.forall_mem_cons.mpr ⟨⟨_, _, rfl⟩, ih⟩

theorem Round.mem {t : Throttler} {p : Nat} {evs : List GatewayEv} (h : Round t p evs) :
    ∀ e ∈ evs, (∃ now, e = .clock now) ∨ (∃ cmd r, e = .queried p cmd r) ∨
      ∃ m cell, e = .stored p m cell := by
  intro e he
  cases h with
  | failed hevs => exact Or.inr (Or.inl (hevs e he))
  | published _ _ hread _ =>
      rcases List.mem_append.mp he with he | he
      · simp only [List.mem_cons, List.not_mem_nil, or_false] at he
        rcases he with rfl | rfl | rfl | rfl | rfl <;> simp
      · rcases List.mem_append.mp he with he | he
        · rcases hread.mem e he with hclock | hquery
          · exact Or.inl hclock
          · exact Or.inr (Or.inl hquery)
        · exact Or.inr (Or.inl (lengthEvents_mem e (List.mem_reverse.mp he)))

/-- The updater records nothing of a request. -/
theorem Rounds.mem {t : Throttler} {p : Nat} {o : Trace} (h : Rounds t p o) {e : GatewayEv}
    (he : .inr e ∈ o) : e = .updating p ∨ (∃ now, e = .clock now) ∨
      (∃ cmd r, e = .queried p cmd r) ∨ ∃ m cell, e = .stored p m cell := by
  induction h with
  | start => exact Or.inl (by simpa using he)
  | @round o evs hrounds hround ih =>
      rcases List.mem_append.mp he with he | he
      · right
        exact hround.mem e (by simpa using he)
      · exact ih he

/-- A request has recorded the beginning of the course to some answer. -/
theorem request_course {P : Policy G.world} {c : Conf G.world} (hc : P.Reachable G.init c)
    {t p : Nat} {req : Request} (hreq : .inr (.received p req) ∈ ownEvents c.store.log t) :
    ∃ resp o, Answered G p req resp o ∧
      ownEvents c.store.log t <:+ .inr (.responded resp) :: o := by
  obtain ⟨full, hfull, hsuf⟩ := task_course hc t
  have hmem := hsuf.subset hreq
  cases hfull with
  | cluster evs => simp at hmem
  | @request p' req' resp o ho =>
      rw [List.mem_cons] at hmem
      rcases ho.mem (hmem.resolve_left (by simp)) with heq | ⟨_, heq⟩ | ⟨_, heq⟩ | ⟨_, _, heq⟩ <;>
        cases heq
      exact ⟨resp, o, ho, hsuf⟩
  | @updater thr p' o o' _ ho heq =>
      have hmem : .inr (.received p req) ∈ o := by
        rcases heq with rfl | rfl
        · exact hmem
        · simpa using hmem
      rcases ho.mem hmem with heq | ⟨now, heq⟩ | ⟨cmd, r, heq⟩ | ⟨m, cell, heq⟩ <;> cases heq
  | stop ho => rcases ho with rfl | ⟨-, rfl⟩ <;> simp at hmem

/-- A request that has answered has recorded the whole course. -/
theorem answered_course {P : Policy G.world} {c : Conf G.world} (hc : P.Reachable G.init c)
    {t p : Nat} {req : Request} {resp : Response}
    (hreq : .inr (.received p req) ∈ ownEvents c.store.log t)
    (hresp : .inr (.responded resp) ∈ ownEvents c.store.log t) :
    ∃ o, Answered G p req resp o ∧ ownEvents c.store.log t = .inr (.responded resp) :: o := by
  obtain ⟨resp', o, ho, hsuf⟩ := request_course hc hreq
  have hnone : .inr (.responded resp) ∉ o := by
    intro hmem
    rcases ho.mem hmem with heq | ⟨_, heq⟩ | ⟨_, heq⟩ | ⟨_, _, heq⟩ <;> cases heq
  rcases List.suffix_cons_iff.mp hsuf with heq | hsuf
  · rw [heq] at hresp ⊢
    rcases List.mem_cons.mp hresp with heq' | hmem
    · cases heq'
      exact ⟨o, ho, rfl⟩
    · exact absurd hmem hnone
  · exact absurd (hsuf.subset hresp) hnone

end


end LogPipeline.Ingestion
