/-
  LogPipeline.Ingestion.Admission

  What becomes of a request to an ingestion process, in any run of any number of
  processes beside the workers of a deployment.

  What a request asks of the cluster is one `Enqueue` at most (`serves_handle`), so the
  server behind the processes is one that producers and workers alone can leave
  (`gateway_refines`): what is proved of every run of the cluster holds behind them.

  What a request records is the beginning of one of a few courses (`request_course`).
  From that is read off what its response tells the client:

  - `answer_matches_queue`: 202 with the id of the one entry it added, or none was added.
  - `accepted_conserved`: the job of an accepted event is not lost.
  - `refusal_is_free`: 429 and 503 cost no command, and `Retry-After` is the whole seconds of
    a delay within its bounds.
-/

import LogPipeline.Cluster.Conservation
import LogPipeline.Ingestion.Course
import LogPipeline.Ingestion.Timing

namespace LogPipeline.Ingestion

open Conc Go Redis Cluster Queue Bootstrap

-- ============================================================================
-- What the processes ask of the cluster
-- ============================================================================

/-- The commands and the clock of the throttler. -/
def Observed : Op → Prop
  | .redis _ cmd => isQuery cmd = true
  | .now => True
  | _ => False

theorem uses_streamLengthFrom (cfg : QueueConfig) (ctx : Ctx) (n : Nat) (i total : Int64) :
    (streamLengthFrom cfg ctx n i total).Uses Observed := by
  induction n generalizing i total with
  | zero => trivial
  | succ n ih =>
      refine ⟨rfl, fun r => ?_⟩
      cases r with
      | error err => trivial
      | ok length => exact ih _ _

theorem uses_getPendingInfo (c : Consumer) (ctx : Ctx) : (c.getPendingInfo ctx).Uses Observed := by
  unfold Consumer.getPendingInfo
  rw [Prog.bind_eq, redis_bind]
  refine ⟨rfl, fun r => ?_⟩
  cases r with
  | error err =>
      dsimp only
      split <;> trivial
  | ok info =>
      dsimp only
      split
      · exact ⟨trivial, fun _ => trivial⟩
      · trivial

theorem uses_getPendingMetrics (t : Throttler) (ctx : Ctx) :
    (t.getPendingMetrics ctx).Uses Observed := by
  unfold Throttler.getPendingMetrics
  split
  · trivial
  · exact uses_getPendingInfo _ ctx

theorem isOwn_observing (p : Nat) (o : Op) (ho : Observed o) : (observing p o).Uses IsOwn := by
  cases o with
  | redis ctx cmd => exact ⟨trivial, fun _ => trivial⟩
  | now => exact ⟨trivial, fun _ => trivial⟩
  | _ => exact ho.elim

theorem isOwn_updateMetrics (t : Throttler) (p : Nat) : (updateMetrics t p).Uses IsOwn := by
  refine ((uses_streamLengthFrom _ _ _ _ _).interp (isOwn_observing p)).bind fun r => ?_
  cases r with
  | error err => trivial
  | ok depth =>
      refine ((uses_getPendingMetrics t _).interp (isOwn_observing p)).bind fun figures => ?_
      exact ⟨trivial, fun _ => ⟨trivial, fun _ => ⟨trivial, fun _ => ⟨trivial, fun _ =>
        ⟨trivial, fun _ => trivial⟩⟩⟩⟩⟩

theorem isOwn_metricsLoop (t : Throttler) (p n : Nat) : (metricsLoop t p n).Uses IsOwn := by
  induction n with
  | zero => trivial
  | succ n ih =>
      refine ⟨trivial, fun done => ?_⟩
      cases done with
      | false => exact (isOwn_updateMetrics t p).bind fun _ => ih
      | true => exact ⟨trivial, fun _ => trivial⟩

theorem isOwn_decision (throttler : Option Throttler) (p : Nat) :
    (decision throttler p).Uses IsOwn := by
  cases throttler with
  | none => trivial
  | some t =>
      unfold decision
      dsimp only
      split
      · trivial
      refine ⟨trivial, fun lastUpdated => ⟨trivial, fun now => ?_⟩⟩
      change Prog.Uses IsOwn (if _ then _ else _)
      split
      · trivial
      refine ⟨trivial, fun depth => ⟨trivial, fun age => ?_⟩⟩
      change Prog.Uses IsOwn (if _ then _ else if _ then _ else _)
      split
      · trivial
      split
      · unfold computeRetryAfter
        split
        · trivial
        · exact ⟨trivial, fun _ => trivial⟩
      · trivial

theorem isOwn_stop (throttler : Option Throttler) (p : Nat) : (stop throttler p).Uses IsOwn := by
  cases throttler with
  | none => trivial
  | some t =>
      refine ⟨trivial, fun entered => ?_⟩
      cases entered with
      | false => trivial
      | true => exact ⟨trivial, fun _ => ⟨trivial, fun _ => ⟨trivial, fun _ => trivial⟩⟩⟩

namespace Gateway

variable {G : Gateway}

/-- Whatever follows, what `IngestLog` asks of the cluster is one `Enqueue`. -/
theorem serves_ingestLog (p : Nat) (ev : LogEvent) {f : Except IngestError StreamID → Handler Unit}
    (hf : ∀ r, (f r).Uses IsOwn) :
    Serves ((G.ingestLog p ev).bind f) {enqueueAndNote G.D ev} := by
  have hself : ∀ r, Serves (f r) {enqueueAndNote G.D ev} := fun r =>
    Serves.of_local (hf r) ⟨_, rfl⟩
  unfold ingestLog
  rw [Prog.bind_eq, Prog.bind_assoc]
  refine Serves.local_bind (isOwn_decision _ p) ⟨_, rfl⟩ fun d => ?_
  obtain ⟨verdict, retryAfter⟩ := d
  cases verdict with
  | circuitOpen => exact hself _
  | rateLimit => exact hself _
  | allow =>
      dsimp only
      split
      · exact hself _
      rw [Prog.bind_eq, Prog.bind_assoc]
      refine Serves.base_bind fun r => ?_
      cases r with
      | error err => exact Serves.of_local (hf _) ⟨_, rfl⟩
      | ok id =>
          refine ⟨⟨_, rfl⟩, fun r => ⟨{.ret ()}, Serves.of_local (hf _) ⟨_, rfl⟩, ?_⟩⟩
          rintro q rfl
          exact ⟨_, rfl, rfl⟩

theorem isOwn_ask (o : Call) : (ask o).Uses IsOwn := ⟨trivial, fun _ => trivial⟩

/-- What a request asks of the cluster is one `Enqueue` at most; of which event, is settled
    when it has its timestamp. -/
theorem serves_handle (p : Nat) (req : Request) :
    Serves (G.handle p req) (Set.range (enqueueAndNote G.D)) := by
  have hne : (Set.range (enqueueAndNote G.D)).Nonempty := ⟨_, .zero, rfl⟩
  have hsub : ∀ ev, {enqueueAndNote G.D ev} ⊆ Set.range (enqueueAndNote G.D) := fun ev =>
    Set.singleton_subset_iff.mpr ⟨ev, rfl⟩
  cases req with
  | logs body =>
      have hown : ∀ {k : Except IngestError StreamID → Handler Unit},
          (∀ r, ∃ resp, k r = ask (.respond resp)) → ∀ ev,
          Serves ((G.ingestLog p ev).bind k) {enqueueAndNote G.D ev} := by
        intro k hk ev
        refine serves_ingestLog p ev fun r => ?_
        obtain ⟨resp, heq⟩ := hk r
        rw [heq]
        exact isOwn_ask _
      unfold handle handleLogs
      dsimp only
      split
      · exact Serves.of_local (isOwn_ask _) hne
      unfold defaultTimestamp
      split
      · exact ⟨hne, fun now => ⟨_, hown (fun r => by cases r <;> exact ⟨_, rfl⟩) _, hsub _⟩⟩
      · exact (hown (fun r => by cases r <;> exact ⟨_, rfl⟩) _).mono (hsub _)
  | testFailure =>
      refine ⟨hne, fun now => ⟨_, serves_ingestLog p (testLog now) fun r => ?_, hsub _⟩⟩
      cases r with
      | error err => exact isOwn_ask _
      | ok id => exact isOwn_ask _

/-- Every program of an ingestion process is served by `Enqueue`. -/
theorem served {P : Policy (Cluster.world G.D)} (hP : ∀ ev s, P.start (.enqueue ev) s) :
    G.front.Served P := by
  have hjob : ∀ q ∈ Set.range (enqueueAndNote G.D), ∀ t s, ∃ j, P.start j s ∧
      Cluster.startJob G.D t j s = some (q, s) := by
    rintro _ ⟨ev, rfl⟩ t s
    exact ⟨.enqueue ev, hP ev s, rfl⟩
  have hne : (Set.range (enqueueAndNote G.D)).Nonempty := ⟨_, .zero, rfl⟩
  intro j l q l' ev hst
  refine ⟨_, ?_, hjob⟩
  cases j with
  | setup p rounds =>
      simp only [startJob] at hst
      split at hst
      · cases hst
      split at hst
      · cases hst
        exact hne
      · cases hst
        exact Serves.of_local ((isOwn_updateMetrics _ p).bind fun _ => isOwn_metricsLoop _ p _) hne
  | request p req =>
      simp only [startJob] at hst
      split at hst
      · cases hst
        exact serves_handle p req
      · cases hst
  | stop p =>
      simp only [startJob] at hst
      split at hst
      · cases hst
        exact Serves.of_local (isOwn_stop _ p) hne
      · cases hst

end Gateway

-- ============================================================================
-- Two runs
-- ============================================================================

/-- The ingestion processes of the default configuration. -/
def Gateway.ofDefaults : Gateway := ⟨.ofDefaults false, fun _ => "throttler"⟩

/-- Start a program of an ingestion process, or one of the cluster. -/
def Gateway.begin {G : Gateway} (j : GatewayJob) : Action G.world := .start (.inr j)

@[inherit_doc Gateway.begin]
def Gateway.launch {G : Gateway} (j : Job) : Action G.world := .start (.inl j)

/-- The next `n` calls of a task, each answered by the same choice. -/
def Gateway.turns {G : Gateway} (t n : Nat) (ch : Choice := {}) (g : GatewayChoice := {}) :
    List (Action G.world) :=
  List.replicate n (.step t (ch, g))

/-- The event is that of a request to the process. -/
def isRequest (p : Nat) : Ev ⊕ GatewayEv → Bool
  | .inr (.received q _) => p == q
  | _ => false

/-- The event is a response with the status. -/
def hasStatus (n : Nat) : Ev ⊕ GatewayEv → Bool
  | .inr (.responded resp) => resp.status == n
  | _ => false

/-- In the trace is a request to the process, and a response with the status. -/
def AnsweredWith (p n : Nat) (o : Trace) : Prop :=
  (∃ e ∈ o, isRequest p e = true) ∧ ∃ e ∈ o, hasStatus n e = true

instance (p n : Nat) (o : Trace) : Decidable (AnsweredWith p n o) :=
  inferInstanceAs (Decidable (_ ∧ _))

theorem AnsweredWith.elim {p n : Nat} {o : Trace} (h : AnsweredWith p n o) :
    ∃ req resp, .inr (.received p req) ∈ o ∧ .inr (.responded resp) ∈ o ∧ resp.status = n := by
  obtain ⟨⟨e, he, hreq⟩, e', he', hresp⟩ := h
  unfold isRequest at hreq
  unfold hasStatus at hresp
  split at hreq
  · next q req =>
      split at hresp
      · next resp =>
          obtain rfl := beq_iff_eq.mp hreq
          exact ⟨req, resp, he, he', beq_iff_eq.mp hresp⟩
      · cases hresp
  · cases hreq

/-- The event is that of a metric that the process has stored. -/
def isUpdate (p : Nat) : Ev ⊕ GatewayEv → Bool
  | .inr (.stored q _ _) => p == q
  | _ => false

/-- The entries a task has added: stream, id and values. -/
def entriesAdded (o : Trace) : List (String × StreamID × Values) :=
  o.filterMap fun e =>
    match e with
    | .inl (.cmd _ (.xAdd stream _ v) (.ok id) _) => some (stream, id, v)
    | _ => none

/-- A request comes in after the metrics were updated.  A worker takes its job, the attempt
    fails, a copy of the job is added, and the XACK is lost. -/
def acceptedRun : List (Action Gateway.ofDefaults.world) :=
  [Gateway.launch Job.setupPartitions] ++ Gateway.turns 0 3 ++
  [Gateway.begin (GatewayJob.setup 0 0)] ++ Gateway.turns 1 9 ++
  [Gateway.begin (GatewayJob.request 0 (Request.logs (Text.json (Json.obj
    [("level", .str "INFO"), ("service", .str "a"), ("message", .str "started")]))))] ++
  Gateway.turns 2 11 { uuid := "j", id := StreamID.of 1 0 } ++
  [Gateway.launch (Job.poll 0 1)] ++ Gateway.turns 3 5 ++
  [Gateway.launch (Job.process 0)] ++
  Gateway.turns 4 4 { result := some "timeout", id := StreamID.of 2 0 } ++
  Gateway.turns 4 4 { fail := some "connection reset" }

theorem exists_accepted : ∃ c,
    (Gateway.ofDefaults.front.policy (queuePolicy Gateway.ofDefaults.D)).Reachable
      Gateway.ofDefaults.init c ∧ AnsweredWith 0 202 (ownEvents c.store.log 2) ∧
    (∃ e ∈ ownEvents c.store.log 1, isUpdate 0 e = true) ∧
    (entriesAdded (ownEvents c.store.log 4)).length = 1 :=
  Policy.exists_reachable acceptedRun (by decide +kernel) (by decide +kernel)

/-- The wait of the first message, at the end of the second run. -/
def fortySeconds : GatewayChoice := { clock := ⟨40000000000, by decide⟩ }

/-- A message has been pending for forty seconds when the metrics are updated; then a request
    comes in. -/
def refusedRun : List (Action Gateway.ofDefaults.world) :=
  [Gateway.begin (GatewayJob.setup 0 0),
    Gateway.launch (Job.enqueue { LogEvent.zero with service := "a" })] ++
  Gateway.turns 1 3 { uuid := "j", id := StreamID.of 1 0 } ++
  [Gateway.launch Job.setupPartitions] ++ Gateway.turns 2 2 ++
  [Gateway.launch (Job.poll 0 1)] ++ Gateway.turns 3 3 ++
  Gateway.turns 0 9 {} fortySeconds ++
  [Gateway.begin (GatewayJob.request 0 (Request.logs (Text.json (Json.obj []))))] ++
  Gateway.turns 4 7 {} fortySeconds

theorem exists_refused : ∃ c,
    (Gateway.ofDefaults.front.policy (queuePolicy Gateway.ofDefaults.D)).Reachable
      Gateway.ofDefaults.init c ∧ AnsweredWith 0 429 (ownEvents c.store.log 4) :=
  Policy.exists_reachable refusedRun (by decide +kernel) (by decide +kernel)

-- ============================================================================
-- The server behind the processes
-- ============================================================================

/-- The server, as the ingestion processes and the workers leave it, is one that producers
    and workers alone can leave. -/
theorem gateway_refines {G : Gateway} {P : Policy (Cluster.world G.D)}
    (hP : ∀ ev s, P.start (.enqueue ev) s) {c : Conf G.world}
    (hc : (G.front.policy P).Reachable G.init c) :
    ∃ c', P.Reachable Store.init c' ∧ c'.store = c.store.base :=
  Front.refines (Gateway.served hP) hc

/-- The server after an update of the metrics, a request and a failed attempt of its job. -/
theorem gateway_refines_test : ∃ (c : Conf Gateway.ofDefaults.world)
    (c' : Conf (Cluster.world Gateway.ofDefaults.D)),
    AnsweredWith 0 202 (ownEvents c.store.log 2) ∧
    (∃ e ∈ ownEvents c.store.log 1, isUpdate 0 e = true) ∧
    (entriesAdded (ownEvents c.store.log 4)).length = 1 ∧
    (queuePolicy Gateway.ofDefaults.D).Reachable Store.init c' ∧
    c'.store = c.store.base := by
  obtain ⟨c, hc, hanswered, hupdated, hcopied⟩ := exists_accepted
  obtain ⟨c', hc', hstore⟩ := gateway_refines (fun _ _ => trivial) hc
  exact ⟨c, c', hanswered, hupdated, hcopied, hc', hstore⟩

-- ============================================================================
-- What a response tells its client
-- ============================================================================

theorem entriesAdded_append (o o' : Trace) :
    entriesAdded (o ++ o') = entriesAdded o ++ entriesAdded o' := List.filterMap_append ..

theorem entriesAdded_le {o o' : Trace} (h : o <:+ o') :
    (entriesAdded o).length ≤ (entriesAdded o').length := (h.sublist.filterMap _).length_le

@[simp] theorem entriesAdded_inr (evs : List GatewayEv) :
    entriesAdded (evs.map Sum.inr) = [] := by
  unfold entriesAdded
  rw [List.filterMap_eq_nil_iff]
  simp

/-- The entry is the job of the event. -/
def IsJobOf (D : Deployment) (ev : LogEvent) (entry : String × StreamID × Values) : Prop :=
  entry.1 = streamNameFor D.cfg.queue ev.service ∧ ∃ u now text,
    envelopeStruct.marshal (D.newEnvelope u ev now) = .ok text ∧ entry.2.2 = jobValues text

section

variable {G : Gateway}

/-- What `IngestLog` has added. -/
theorem Ingested.entriesAdded {p : Nat} {ev : LogEvent} {r : Except IngestError StreamID}
    {evs : Trace} (h : Ingested G p ev r evs) :
    match r with
    | .ok id => ∃ v, entriesAdded evs = [(streamNameFor G.D.cfg.queue ev.service, id, v)] ∧
        IsJobOf G.D ev (streamNameFor G.D.cfg.queue ev.service, id, v)
    | .error _ => entriesAdded evs = [] := by
  cases h with
  | circuitOpen => simp
  | rateLimited => simp
  | invalid => simp
  | failed _ _ henq =>
      rw [entriesAdded_append, entriesAdded_inr]
      cases henq <;> rfl
  | accepted _ _ henq =>
      cases henq with
      | added htext =>
          refine ⟨_, ?_, rfl, _, _, _, htext, rfl⟩
          change Ingestion.entriesAdded ([_, _, _] ++ _) = _
          rw [entriesAdded_append, entriesAdded_inr]
          rfl

theorem responseTo_status (req : Request) (r : Except IngestError StreamID) :
    (responseTo req r).status = 202 ↔ ∃ id, r = .ok id := by
  cases r with
  | ok id => cases req <;> simp [responseTo, Gateway.acceptance]
  | error err => cases req <;> cases err <;> simp [responseTo, Gateway.refusal]

theorem Answered.entriesAdded {p : Nat} {req : Request} {resp : Response} {o : Trace}
    (h : Answered G p req resp o) :
    (resp.status = 202 ∧ ∃ ev chosen entry, Chosen req ev chosen ∧ IsJobOf G.D ev entry ∧
      resp = Gateway.acceptance entry.2.1 ∧ entriesAdded o = [entry]) ∨
    (resp.status ≠ 202 ∧ entriesAdded o = []) := by
  cases h with
  | malformed => exact Or.inr ⟨by simp, rfl⟩
  | @ingested ev chosen r evs hchosen hevs =>
      have hadd := hevs.entriesAdded
      rw [entriesAdded_append, entriesAdded_inr, List.append_nil]
      cases r with
      | ok id =>
          obtain ⟨v, hentries, hjob⟩ := hadd
          have hresp : responseTo req (.ok id) = Gateway.acceptance id := by cases req <;> rfl
          refine Or.inl ⟨by rw [hresp]; rfl, ev, chosen, _, hchosen, hjob, hresp, hentries⟩
      | error err =>
          refine Or.inr ⟨fun hstatus => ?_, hadd⟩
          obtain ⟨id, heq⟩ := (responseTo_status req _).mp hstatus
          cases heq

/-- A request adds one entry at most.  It is answered 202 exactly if it added one, with the id
    of that entry, and the entry is the job of the event that was sent. -/
theorem answer_matches_queue {P : Policy G.world} {c : Conf G.world} (hc : P.Reachable G.init c)
    {t p : Nat} {req : Request} (hreq : .inr (.received p req) ∈ ownEvents c.store.log t) :
    (entriesAdded (ownEvents c.store.log t)).length ≤ 1 ∧
    ∀ resp, .inr (.responded resp) ∈ ownEvents c.store.log t →
      (resp.status = 202 ∧ ∃ ev chosen entry, Chosen req ev chosen ∧ IsJobOf G.D ev entry ∧
        resp = Gateway.acceptance entry.2.1 ∧
        entriesAdded (ownEvents c.store.log t) = [entry]) ∨
      (resp.status ≠ 202 ∧ entriesAdded (ownEvents c.store.log t) = []) := by
  have hcons : ∀ resp o, entriesAdded (.inr (.responded resp) :: o) = entriesAdded o :=
    fun _ _ => rfl
  refine ⟨?_, fun resp hresp => ?_⟩
  · obtain ⟨resp, o, ho, hsuf⟩ := request_course hc hreq
    have hle := entriesAdded_le hsuf
    rw [hcons] at hle
    rcases ho.entriesAdded with ⟨-, ev, chosen, entry, -, -, -, heq⟩ | ⟨-, heq⟩
    · rw [heq] at hle
      exact hle
    · rw [heq] at hle
      exact Nat.le_succ_of_le hle
  · obtain ⟨o, ho, heq⟩ := answered_course hc hreq hresp
    rw [heq, hcons]
    exact ho.entriesAdded

/-- A request that is accepted. -/
theorem answer_matches_queue_test : ∃ (c : Conf Gateway.ofDefaults.world) (req : Request),
    .inr (.received 0 req) ∈ ownEvents c.store.log 2 ∧
    (entriesAdded (ownEvents c.store.log 2)).length ≤ 1 ∧
    ∃ resp, .inr (.responded resp) ∈ ownEvents c.store.log 2 ∧ resp.status = 202 ∧
      ∃ ev chosen entry, Chosen req ev chosen ∧ IsJobOf Gateway.ofDefaults.D ev entry ∧
        resp = Gateway.acceptance entry.2.1 ∧
        entriesAdded (ownEvents c.store.log 2) = [entry] := by
  obtain ⟨c, hc, hanswered, -⟩ := exists_accepted
  obtain ⟨req, resp, hreq, hresp, hstatus⟩ := hanswered.elim
  obtain ⟨hle, hall⟩ := answer_matches_queue hc hreq
  refine ⟨c, req, hreq, hle, resp, hresp, hstatus, ?_⟩
  rcases hall resp hresp with ⟨-, hadded⟩ | ⟨hne, -⟩
  · exact hadded
  · exact absurd hstatus hne

-- ============================================================================
-- Accepted events
-- ============================================================================

/-- An event that was accepted is not lost: its job is in its partition and not yet given out,
    or pending, or completed, or in the dead letter queue. -/
theorem accepted_conserved (hdedup : G.D.dedup = false) {c : Conf G.world}
    (hc : (G.front.policy (queuePolicy G.D)).Reachable G.init c) {t p : Nat} {req : Request}
    {resp : Response} (hreq : .inr (.received p req) ∈ ownEvents c.store.log t)
    (hresp : .inr (.responded resp) ∈ ownEvents c.store.log t) (hstatus : resp.status = 202) :
    ∃ ev chosen id u now text, Chosen req ev chosen ∧ resp = Gateway.acceptance id ∧
      envelopeStruct.marshal (G.D.newEnvelope u ev now) = .ok text ∧
      c.store.base.log.Added (streamNameFor G.D.cfg.queue ev.service) id (jobValues text) ∧
      Conserved G.D c.store.base u := by
  obtain ⟨o, ho, hown⟩ := answered_course hc hreq hresp
  cases ho with
  | malformed => cases hstatus
  | @ingested ev chosen r evs hchosen hevs =>
      obtain ⟨id, rfl⟩ := (responseTo_status req r).mp hstatus
      cases hevs with
      | accepted _ _ henq =>
          cases henq with
          | @added u now text _ at_ htext =>
              -- the XADD is in the log of the cluster, which the cluster reaches by itself
              have hcmd : .inl (.cmd .background (enqueueCmd G.D ev text) (.ok id) at_) ∈
                  ownEvents c.store.log t := by
                rw [hown]
                simp
              rw [(Front.reachable_faithful rfl hc).mem_iff] at hcmd
              obtain ⟨x, hx, -, hxev⟩ := mem_ownEvents.mp hcmd
              obtain ⟨c', hc', hstore⟩ := Front.refines (Gateway.served fun _ _ => trivial) hc
              have hadds : x.ev.Adds (streamNameFor G.D.cfg.queue ev.service) id
                  (jobValues text) := ⟨_, _, _, hxev⟩
              have hcar : Carries G.D x.ev u :=
                ⟨_, ⟨id, jobValues text⟩, hadds, Or.inl ⟨_,
                  partitionFor_range G.D.accepted.queue ev.service, streamNameFor_eq ..,
                  _, job_jobValues htext, rfl⟩⟩
              have hresp' : responseTo req (.ok id) = Gateway.acceptance id := by
                cases req <;> rfl
              refine ⟨ev, chosen, id, u, now, text, hchosen, hresp', htext, ⟨x, hx, hadds⟩, ?_⟩
              rw [← hstore] at hx ⊢
              exact (reachable_kept hdedup hc').conserved (reachable_stamped hc') hx hcar

/-- The job of an accepted request, after its first attempt failed and was copied. -/
theorem accepted_conserved_test : ∃ (c : Conf Gateway.ofDefaults.world) (req : Request)
    (resp : Response), .inr (.received 0 req) ∈ ownEvents c.store.log 2 ∧
    .inr (.responded resp) ∈ ownEvents c.store.log 2 ∧ resp.status = 202 ∧
    (entriesAdded (ownEvents c.store.log 4)).length = 1 ∧
    ∃ ev chosen id u now text, Chosen req ev chosen ∧ resp = Gateway.acceptance id ∧
      envelopeStruct.marshal (Gateway.ofDefaults.D.newEnvelope u ev now) = .ok text ∧
      c.store.base.log.Added (streamNameFor Gateway.ofDefaults.D.cfg.queue ev.service) id
        (jobValues text) ∧
      Conserved Gateway.ofDefaults.D c.store.base u := by
  obtain ⟨c, hc, hanswered, -, hcopied⟩ := exists_accepted
  obtain ⟨req, resp, hreq, hresp, hstatus⟩ := hanswered.elim
  exact ⟨c, req, resp, hreq, hresp, hstatus, hcopied,
    accepted_conserved rfl hc hreq hresp hstatus⟩

-- ============================================================================
-- Refused requests
-- ============================================================================

theorem Throttler.computeRetryAfter_mem {t : Throttler} (hok : t.config.Ok) (m : ThrottlerMetrics)
    (depth : Int64) (oldestAge : Duration) :
    t.config.minRetryAfter ≤ t.computeRetryAfter m depth oldestAge ∧
      t.computeRetryAfter m depth oldestAge ≤ t.config.maxRetryAfter := by
  have hclamp : ∀ d : Duration, t.config.minRetryAfter ≤ t.clamp d ∧
      t.clamp d ≤ t.config.maxRetryAfter := by
    intro d
    have hlt := Int64.lt_iff_toInt_lt.mp hok.max_gt_min
    unfold clamp
    simp only [Int64.le_iff_toInt_le, gt_iff_lt, Int64.lt_iff_toInt_lt]
    split <;> split <;> omega
  unfold computeRetryAfter
  rw [if_neg (not_le.mpr hok.estimatedDrainRate)]
  exact hclamp _

/-- The seconds of a delay that is not negative, as the handler writes them. -/
theorem truncate_seconds {d : Duration} (hd : 0 ≤ d.toInt) :
    (truncate (Gateway.seconds d)).toInt = d.toInt / 1000000000 := by
  have hlt := d.toInt_lt
  have hsecond : float64 second = 1000000000 := by decide +kernel
  have hfloor : ⌊Gateway.seconds d⌋ = d.toInt / 1000000000 := by
    unfold Gateway.seconds
    rw [hsecond, float64, show (1000000000 : Rat) = ((1000000000 : Nat) : Rat) by norm_num,
      Rat.floor_intCast_div_natCast]
    rfl
  rw [Throttler.toInt_truncate, hfloor]
  · unfold Gateway.seconds
    rw [hsecond, float64]
    positivity
  · unfold Gateway.seconds
    rw [hsecond, float64, div_lt_iff₀ (by norm_num)]
    exact_mod_cast (by omega : d.toInt < 2 ^ 63 * 1000000000)

theorem throttler_eq_some {p : Nat} {t : Throttler} (h : G.throttler p = some t) :
    t.config = G.D.cfg.ingestion.throttler ∧ t.config.Ok := by
  unfold Gateway.throttler setupThrottler at h
  split at h
  · next hen =>
      cases h
      exact ⟨rfl, G.D.accepted.throttler hen⟩
  · cases h

/-- The delay of a refusal. -/
theorem Decided.retryAfter_mem {p : Nat} {retryAfter : Duration} {evs : List GatewayEv}
    (h : Decided p (G.throttler p) (.rateLimit, retryAfter) evs) :
    0 < G.D.cfg.ingestion.throttler.minRetryAfter ∧
      G.D.cfg.ingestion.throttler.minRetryAfter ≤ retryAfter ∧
      retryAfter ≤ G.D.cfg.ingestion.throttler.maxRetryAfter := by
  generalize hr : (ThrottleDecision.rateLimit, retryAfter) = r at h
  generalize ht : G.throttler p = throttler at h
  cases h with
  | noop => cases hr
  | disabled => cases hr
  | stale => cases hr
  | @fresh t m now evs hen hfresh hevs =>
      obtain ⟨hcfg, hok⟩ := throttler_eq_some ht
      rw [Throttler.decision_of_fresh hen hfresh] at hr
      split at hr
      · cases hr
      · split at hr
        · cases hr
          rw [← hcfg]
          exact ⟨hok.minRetryAfter, Throttler.computeRetryAfter_mem hok _ _ _⟩
        · cases hr

/-- A request that is refused for the load has asked nothing of the cluster, and has not
    queried the server for the throttler either.  A client that is told to come back later is
    given the whole seconds of a delay within the configured bounds. -/
theorem refusal_is_free {P : Policy G.world} {c : Conf G.world} (hc : P.Reachable G.init c)
    {t p : Nat} {req : Request} {resp : Response}
    (hreq : .inr (.received p req) ∈ ownEvents c.store.log t)
    (hresp : .inr (.responded resp) ∈ ownEvents c.store.log t)
    (hstatus : resp.status = 429 ∨ resp.status = 503) :
    (∀ ev, .inl ev ∉ ownEvents c.store.log t) ∧
    (∀ q cmd reply, .inr (.queried q cmd reply) ∉ ownEvents c.store.log t) ∧
    (resp.status = 429 → ∃ (delay : Duration) (n : Int64),
      G.D.cfg.ingestion.throttler.minRetryAfter ≤ delay ∧
      delay ≤ G.D.cfg.ingestion.throttler.maxRetryAfter ∧
      n.toInt = delay.toInt / 1000000000 ∧ resp.retryAfter = some (formatInt n)) := by
  obtain ⟨o, ho, hown⟩ := answered_course hc hreq hresp
  rw [hown]
  have hqueries : ∀ q cmd reply,
      .inr (.queried q cmd reply) ∉ (.inr (.responded resp) :: o : Trace) := by
    intro q cmd reply hmem
    rcases List.mem_cons.mp hmem with hmem | hmem
    · cases hmem
    · rcases ho.mem hmem with h | ⟨_, h⟩ | ⟨_, h⟩ | ⟨_, _, h⟩ <;> cases h
  cases ho with
  | malformed => simp at hstatus
  | @ingested ev chosen r evs hchosen hevs =>
      cases hevs with
      | circuitOpen hd =>
          refine ⟨by simp, hqueries, fun h429 => ?_⟩
          cases req <;> cases h429
      | @rateLimited decided retryAfter hd =>
          refine ⟨by simp, hqueries, fun h429 => ?_⟩
          obtain ⟨hpos, hmin, hmax⟩ := hd.retryAfter_mem
          have hnonneg : 0 ≤ retryAfter.toInt := by
            rw [Int64.lt_iff_toInt_lt, show (0 : Int64).toInt = 0 by decide] at hpos
            rw [Int64.le_iff_toInt_le] at hmin
            omega
          cases req with
          | testFailure => cases h429
          | logs body => exact ⟨retryAfter, _, hmin, hmax, truncate_seconds hnonneg, rfl⟩
      | invalid => cases req <;> simp [responseTo, Gateway.refusal] at hstatus
      | failed => cases req <;> simp [responseTo, Gateway.refusal] at hstatus
      | accepted => cases req <;> simp [responseTo, Gateway.acceptance] at hstatus

/-- A request while the oldest message has been pending for forty seconds. -/
theorem refusal_is_free_fortySeconds : ∃ (c : Conf Gateway.ofDefaults.world) (req : Request)
    (resp : Response), .inr (.received 0 req) ∈ ownEvents c.store.log 4 ∧
    .inr (.responded resp) ∈ ownEvents c.store.log 4 ∧ resp.status = 429 ∧
    (∀ ev, .inl ev ∉ ownEvents c.store.log 4) ∧
    (∀ q cmd reply, .inr (.queried q cmd reply) ∉ ownEvents c.store.log 4) ∧
    ∃ n : Int64, resp.retryAfter = some (formatInt n) ∧ 1 ≤ n.toInt ∧ n.toInt ≤ 30 := by
  obtain ⟨c, hc, hanswered⟩ := exists_refused
  obtain ⟨req, resp, hreq, hresp, hstatus⟩ := hanswered.elim
  obtain ⟨hfree, hqueries, hdelay⟩ := refusal_is_free hc hreq hresp (Or.inl hstatus)
  obtain ⟨delay, n, hmin, hmax, hn, hretry⟩ := hdelay hstatus
  have hmin' : 1000000000 ≤ delay.toInt := Int64.le_iff_toInt_le.mp hmin
  have hmax' : delay.toInt ≤ 30000000000 := Int64.le_iff_toInt_le.mp hmax
  exact ⟨c, req, resp, hreq, hresp, hstatus, hfree, hqueries, n, hretry, by omega, by omega⟩

end

end LogPipeline.Ingestion
