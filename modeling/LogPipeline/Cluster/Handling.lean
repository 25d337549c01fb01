/-
  LogPipeline.Cluster.Handling

  What has become of a delivery when the worker is done with it.

  A message reaches a worker by the XREADGROUP of its poll loop or by the
  XAUTOCLAIM of its reclaim loop.  If it parses, a goroutine processes it and, on
  a server that answers, acknowledges it in the end, after a failed attempt too,
  unless the job has attempts left and cannot be marshalled again.
  If it does not parse, both loops log the error and go on: the message stays in
  the pending list, and nothing is written to the dead letter queue.

  - `delivery_handled_iff`: so a handled delivery has left the pending list exactly
    if the message parses and its failed attempt, if it was one, could be put back.
-/

import LogPipeline.Cluster.Reclaim
import LogPipeline.Cluster.Retry
import LogPipeline.Cluster.Runs

namespace LogPipeline.Cluster

open Conc Go Redis Queue

/-- The goroutine of a message, until `Process` returns. -/
def processing (w : Worker) (e : JobEnvelope) : Program (Option String) := do
  call (.jobBegin w.run)
  w.processor.process e

/-- What `Process` returned for the messages that were processed. -/
abbrev Results := List (StreamID × Option String)

/-- Like `alone`, but the goroutine of a message runs to its end where it is started, and what
    its `Process` returned is noted. -/
def inline (D : Deployment) (t : Nat) (ch : Nat → Choice) (w : Worker) :
    (o : Op) → (Store × Nat) × Results → Option (o.Res × (Store × Nat) × Results)
  | .goProcess _ e id, (x, results) =>
      ((processing w e).solo (alone D t ch) x).bind fun r =>
        ((w.jobGoroutine e id).solo (alone D t ch) x).map fun y =>
          ((), y.2, results ++ [(id, r.1)])
  | o, (x, results) => (alone D t ch o x).map fun r => (r.1, r.2, results)

-- ============================================================================
-- What the calls of a goroutine leave alone
-- ============================================================================

/-- Of the server's pending lists the call can only change that one message is in
    the list of the consumer's group. -/
def Op.Settles (c : Consumer) (id : StreamID) : Op → Prop
  | .redis _ (.setNX ..) => True
  | .redis _ (.xAdd ..) => True
  | .redis _ (.xAck stream group id') =>
      stream = c.streamName ∧ group = c.consumerGroup ∧ id' = id
  | .redis _ _ => False
  | .goProcess .. => False
  | _ => True

/-- Whether other messages are pending has not changed, and neither has the context. -/
structure Aside (c : Consumer) (id : StreamID) (run : Nat) (s s' : Store) : Prop where
  live : ¬ s.log.Cancelled run → ¬ s'.log.Cancelled run
  others : ∀ id', id' ≠ id → (StillPending c id' s' ↔ StillPending c id' s)

section Aside

variable {D : Deployment} {t : Nat} {ch : Nat → Choice} {c : Consumer} {id : StreamID} {run : Nat}

theorem Aside.refl {s : Store} : Aside c id run s s := ⟨fun h => h, fun _ _ => Iff.rfl⟩

theorem Aside.trans {s₁ s₂ s₃ : Store} (h : Aside c id run s₁ s₂) (h' : Aside c id run s₂ s₃) :
    Aside c id run s₁ s₃ :=
  ⟨fun hl => h'.live (h.live hl), fun id' hid => (h'.others id' hid).trans (h.others id' hid)⟩

theorem stillPending_congr {s s' : Store} (h : s'.streams = s.streams) (id' : StreamID) :
    StillPending c id' s' ↔ StillPending c id' s := by
  unfold StillPending
  rw [h]

theorem stillPending_xAck_ne {ch : Choice} {s s' : Store} {r : Except RedisError Nat}
    (h : runCmd ch s (.xAck c.streamName c.consumerGroup id) = some (r, s')) {id' : StreamID}
    (hid : id' ≠ id) : StillPending c id' s' ↔ StillPending c id' s := by
  cases h
  unfold StillPending Stream.IsPending
  rw [setStream_self]
  simp only [Stream.xack_groups, if_true, Option.map_eq_some_iff]
  constructor
  · rintro ⟨_, ⟨g, hg, rfl⟩, p, hp, hpid⟩
    exact ⟨g, hg, p, List.mem_of_mem_filter hp, hpid⟩
  · rintro ⟨g, hg, p, hp, rfl⟩
    exact ⟨_, ⟨g, hg, rfl⟩, p, List.mem_filter.mpr ⟨hp, by simpa using hid⟩, rfl⟩

/-- A plain key is not a stream. -/
theorem streams_setNX {ch : Choice} {s s' : Store} {key value : String} {ttl : Duration}
    {r : Except RedisError Bool} (h : runCmd ch s (.setNX key value ttl) = some (r, s')) :
    s'.streams = s.streams := by
  simp only [runCmd] at h
  split at h
  · cases h
    rfl
  · split at h <;> cases h <;> rfl

theorem runCmd_others {ch : Choice} {ctx : Ctx} {cmd : Cmd} {s s' : Store}
    {r : Except RedisError cmd.Reply} (ho : Op.Settles c id (.redis ctx cmd))
    (h : runCmd ch s cmd = some (r, s')) {id' : StreamID} (hid : id' ≠ id) :
    StillPending c id' s' ↔ StillPending c id' s := by
  cases cmd with
  | setNX key value ttl => exact stillPending_congr (streams_setNX h) id'
  | xAdd stream maxLen v => exact stillPending_xAdd h c id'
  | xAck stream group id'' =>
      obtain ⟨rfl, rfl, rfl⟩ := ho
      exact stillPending_xAck_ne h hid
  | xDel stream id => exact False.elim ho
  | xRange stream lo hi => exact False.elim ho
  | xReadGroup stream group consumer block => exact False.elim ho
  | xAutoClaim stream group consumer minIdle start count => exact False.elim ho
  | xGroupCreateMkStream stream group => exact False.elim ho
  | xLen stream => exact False.elim ho
  | xPending stream group => exact False.elim ho

theorem alone_aside {o : Op} {s s' : Store} {i j : Nat} {r : o.Res} (ho : o.Settles c id)
    (h : alone D t ch o (s, i) = some (r, s', j)) : Aside c id run s s' := by
  obtain ⟨hexec, -⟩ := alone_eq_some.mp h
  refine ⟨fun hl => (exec_cancelled hexec run).not.mpr hl, fun id' hid => ?_⟩
  by_cases hredis : ∃ ctx cmd, o = .redis ctx cmd
  · obtain ⟨ctx, cmd, rfl⟩ := hredis
    obtain ⟨s₁, hx, ⟨-, -, rfl⟩ | ⟨-, hrun⟩⟩ := alone_redis h
    · cases hx
      rfl
    · cases hx
      exact runCmd_others ho hrun hid
  · refine stillPending_congr (exec_quiet ?_ hexec).1.streams id'
    intro ctx cmd heq
    exact hredis ⟨ctx, cmd, heq⟩

/-- A program of such calls, run alone. -/
theorem solo_aside {α : Type} {p : Program α} (hp : p.Uses (Op.Settles c id)) {a : α}
    {s s' : Store} {i j : Nat} (h : p.solo (alone D t ch) (s, i) = some (a, s', j)) :
    Aside c id run s s' := by
  refine Prog.solo_keeps (S := sig) (I := fun x => Aside c id run s x.1) (s := (s, i)) ?_ hp
    Aside.refl h
  intro o x r x' ho hx hans
  exact hx.trans (alone_aside ho hans)

end Aside

-- ============================================================================
-- The goroutine of a message
-- ============================================================================

theorem uses_process (φ : Op → Prop) (proc : Processor) (e : JobEnvelope)
    (hcheck : ∀ key value ttl, φ (.redis .background (.setNX key value ttl)))
    (hinvoke : φ (.invoke e)) (hawait : φ (.await e)) : (proc.process e).Uses φ := by
  cases proc with
  | downstream => exact ⟨hinvoke, fun _ => ⟨hawait, fun _ => trivial⟩⟩
  | deduplicating ttl =>
      refine ⟨hcheck _ _ _, fun reply => ?_⟩
      cases reply with
      | error err => trivial
      | ok wasNew =>
          cases wasNew with
          | false => trivial
          | true => exact ⟨hinvoke, fun _ => ⟨hawait, fun _ => trivial⟩⟩

theorem uses_jobGoroutine (w : Worker) (e : JobEnvelope) (id : StreamID) :
    (w.jobGoroutine e id).Uses (Op.Settles w.consumer id) := by
  have hack : Op.Settles w.consumer id (.redis (.worker w.run)
      (.xAck w.consumer.streamName w.consumer.consumerGroup id)) := ⟨rfl, rfl, rfl⟩
  refine ⟨trivial, fun _ => Prog.Uses.bind (p := w.processMessage e id) ?_ fun _ =>
    ⟨trivial, fun _ => ⟨trivial, fun _ => trivial⟩⟩⟩
  refine Prog.Uses.bind (uses_process _ w.processor e (fun _ _ _ => trivial) trivial trivial)
    fun res => ?_
  cases res with
  | none => exact (uses_ack hack).bind fun _ => trivial
  | some err =>
      exact (uses_retry (c := w.consumer) trivial (fun _ _ _ => trivial) hack).bind fun _ => trivial

section Goroutine

variable {D : Deployment} {t : Nat} {ch : Nat → Choice} {c : Consumer} {d : DLQ}
  {e : JobEnvelope} {id : StreamID} {run : Nat} {s s' : Store} {i j : Nat}

/-- The server answers, and the context is not cancelled. -/
theorem not_refused (hfail : ∀ i, (ch i).fail = none) (hctx : ¬ s.log.Cancelled run) :
    ¬ Refused (ch i) (.worker run) s := by
  rintro (hdone | hlost)
  · exact hctx hdone
  · exact hlost (hfail i)

theorem solo_ack (hfail : ∀ i, (ch i).fail = none) (hctx : ¬ s.log.Cancelled run)
    {a : Except String Unit}
    (h : (c.ack (.worker run) id).solo (alone D t ch) (s, i) = some (a, s', j)) :
    ¬ StillPending c id s' := by
  rw [ack_eq] at h
  obtain ⟨r, x, hans, hret⟩ := Prog.solo_call_eq_some (S := sig) h
  cases hret
  obtain ⟨s₁, hx, ⟨href, -⟩ | ⟨-, hrun⟩⟩ := alone_redis hans
  · exact absurd href (not_refused hfail hctx)
  · cases hx
    exact (not_stillPending_xAck hrun :)

/-- `Retry` on a server that answers acknowledges the message, unless the job has attempts
    left and cannot be marshalled. -/
theorem solo_retry_iff (hd : c.dlq = some d) (hfail : ∀ i, (ch i).fail = none)
    (hctx : ¬ s.log.Cancelled run) (hpend : StillPending c id s) {err : String}
    {a : Except String Unit}
    (h : (c.retry (.worker run) e id err).solo (alone D t ch) (s, i) = some (a, s', j)) :
    ¬ StillPending c id s' ↔ e.Encodable ∨ LastAttempt e := by
  by_cases hlast : LastAttempt e <;> by_cases he : e.Encodable
  · refine iff_of_true ?_ (Or.inl he)
    obtain ⟨text, -, hretry⟩ := retry_eq_last hd (.worker run) id err he hlast
    rw [hretry] at h
    obtain ⟨now, x, hnow, h⟩ := Prog.solo_call_eq_some (S := sig) h
    obtain rfl := alone_now hnow
    obtain ⟨r, ⟨s₁, i₁⟩, hadd, h⟩ := Prog.solo_call_eq_some (S := sig) h
    have hctx₁ := (exec_cancelled (alone_eq_some.mp hadd).1 run).not.mpr hctx
    exact solo_ack hfail hctx₁ h
  · refine iff_of_true ?_ (Or.inr hlast)
    rw [retry_eq_unsent hd (.worker run) id err he hlast] at h
    obtain ⟨now, x, hnow, h⟩ := Prog.solo_call_eq_some (S := sig) h
    obtain rfl := alone_now hnow
    exact solo_ack hfail hctx h
  · refine iff_of_true ?_ (Or.inl he)
    obtain ⟨text, k, -, hretry, hok, -⟩ := retry_eq_copy c (.worker run) id err he hlast
    rw [hretry] at h
    obtain ⟨r, ⟨s₁, i₁⟩, hadd, h⟩ := Prog.solo_call_eq_some (S := sig) h
    have hctx₁ := (exec_cancelled (alone_eq_some.mp hadd).1 run).not.mpr hctx
    obtain ⟨s₂, -, ⟨href, -⟩ | ⟨-, hrun⟩⟩ := alone_redis hadd
    · exact absurd href (not_refused hfail hctx)
    · obtain ⟨rfl, -⟩ := runCmd_xAdd hrun
      rw [hok] at h
      exact solo_ack hfail hctx₁ h
  · obtain ⟨msg, hretry⟩ := retry_eq_uncopied c (.worker run) id err he hlast
    rw [hretry] at h
    cases h
    exact iff_of_false (not_not_intro hpend) fun hor => hor.elim he hlast

/-- Calls other than commands leave the streams alone. -/
theorem alone_streams {o : Op} (ho : ∀ ctx cmd, o ≠ .redis ctx cmd) {r : o.Res}
    (h : alone D t ch o (s, i) = some (r, s', j)) : s'.streams = s.streams :=
  (exec_quiet ho (alone_eq_some.mp h).1).1.streams

/-- `Process` works on plain keys. -/
theorem solo_process_streams {proc : Processor} {res : Option String}
    (h : (proc.process e).solo (alone D t ch) (s, i) = some (res, s', j)) :
    s'.streams = s.streams := by
  refine Prog.solo_keeps (S := sig) (I := fun x : Store × Nat => x.1.streams = s.streams)
    (φ := fun o : Op => ∀ ctx cmd, o = .redis ctx cmd → ∃ key value ttl, cmd = .setNX key value ttl)
    ?_ ?_ rfl h
  · rintro o ⟨s₁, i₁⟩ r ⟨s₂, i₂⟩ ho hsame hans
    by_cases hredis : ∃ ctx cmd, o = .redis ctx cmd
    · obtain ⟨ctx, cmd, rfl⟩ := hredis
      obtain ⟨key, value, ttl, rfl⟩ := ho ctx cmd rfl
      obtain ⟨s₃, hx, ⟨-, -, rfl⟩ | ⟨-, hrun⟩⟩ := alone_redis hans
      · cases hx
        exact hsame
      · cases hx
        exact (streams_setNX hrun).trans hsame
    · exact (alone_streams (fun ctx cmd heq => hredis ⟨ctx, cmd, heq⟩) hans).trans hsame
  · refine uses_process _ proc e (fun key value ttl ctx cmd heq => ?_) (by simp) (by simp)
    cases heq
    exact ⟨key, value, ttl, rfl⟩

/-- The goroutine of a pending message that parses, on a server that answers: in the end the
    message is not pending, unless its attempt failed and could not be put back; and for
    other messages nothing has changed. -/
theorem solo_jobGoroutine {w : Worker} (hd : w.consumer.dlq = some d)
    (hfail : ∀ i, (ch i).fail = none) (hctx : ¬ s.log.Cancelled w.run)
    (hpend : StillPending w.consumer id s) {res : Option String} {x : Store × Nat} {u : Unit}
    (hres : (processing w e).solo (alone D t ch) (s, i) = some (res, x))
    (h : (w.jobGoroutine e id).solo (alone D t ch) (s, i) = some (u, s', j)) :
    (¬ StillPending w.consumer id s' ↔ e.Encodable ∨ LastAttempt e ∨ res = none) ∧
      Aside w.consumer id w.run s s' := by
  refine ⟨?_, solo_aside (uses_jobGoroutine w e id) h⟩
  obtain ⟨_, ⟨s₁, i₁⟩, hbegin, h⟩ := Prog.solo_call_eq_some (S := sig) h
  change Prog.solo _ (Prog.bind (w.processMessage e id) _) _ = _ at h
  obtain ⟨_, ⟨s₃, i₃⟩, hprocess, h⟩ := Prog.solo_bind_eq_some (S := sig) h
  -- the two calls after `processMessage` work on the worker's counters
  have hstreams : s'.streams = s₃.streams := by
    obtain ⟨_, ⟨s₄, i₄⟩, hdone, h⟩ := Prog.solo_call_eq_some (S := sig) h
    obtain ⟨_, ⟨s₅, i₅⟩, hend, h⟩ := Prog.solo_call_eq_some (S := sig) h
    cases h
    exact (alone_streams (o := .jobEnd w.run) (by simp) hend).trans
      (alone_streams (o := .jobDone w.run) (by simp) hdone)
  rw [stillPending_congr hstreams]
  have hctx₁ := (exec_cancelled (alone_eq_some.mp hbegin).1 w.run).not.mpr hctx
  have hpend₁ : StillPending w.consumer id s₁ := (stillPending_congr
    (alone_streams (o := .jobBegin w.run) (by simp) hbegin) id).mpr hpend
  obtain ⟨res', ⟨s₂, i₂⟩, hproc, hprocess⟩ := Prog.solo_bind_eq_some (S := sig) hprocess
  obtain rfl : res = res' := by
    have hsame := (Prog.solo_call (S := sig) hbegin).symm.trans hres
    exact (Prod.mk.inj (Option.some.inj (hsame.symm.trans hproc))).1
  have haside : Aside w.consumer id w.run s₁ s₂ := solo_aside
    (uses_process _ w.processor e (fun _ _ _ => trivial) trivial trivial) hproc
  have hctx₂ := haside.live hctx₁
  have hpend₂ : StillPending w.consumer id s₂ :=
    (stillPending_congr (solo_process_streams hproc) id).mpr hpend₁
  cases res with
  | none =>
      obtain ⟨a, ⟨s₄, i₄⟩, hack, hret⟩ := Prog.solo_bind_eq_some (S := sig) hprocess
      cases hret
      exact iff_of_true (solo_ack hfail hctx₂ hack) (Or.inr (Or.inr rfl))
  | some err =>
      obtain ⟨a, ⟨s₄, i₄⟩, hretry, hret⟩ := Prog.solo_bind_eq_some (S := sig) hprocess
      cases hret
      rw [solo_retry_iff hd hfail hctx₂ hpend₂ hretry]
      simp

end Goroutine

-- ============================================================================
-- The two ways a message is delivered
-- ============================================================================

/-- How a message gets to the worker. -/
inductive Route where
  /-- One round of the poll loop reads it. -/
  | poll
  /-- One reclaim claims it; the cursor loop may read this many pages. -/
  | reclaim (pages : Nat)

/-- The program of the delivery. -/
def Route.program (w : Worker) : Route → Program Unit
  | .poll => w.pollLoop 1
  | .reclaim pages => do
      let _ ← w.reclaimStale pages
      return ()

/-- In the state `s` the delivery is one of the message `m`. -/
def Route.Hands (w : Worker) (s : Store) (m : Entry Values) : Route → Prop
  | .poll => ∃ g, (s.streams w.consumer.streamName).groups w.consumer.consumerGroup = some g ∧
      (s.streams w.consumer.streamName).nextEntry g = some m
  | .reclaim pages => m ∈ (s.streams w.consumer.streamName).entries ∧
      1 ≤ w.config.reclaimBatchSize ∧
      ∃ g, (s.streams w.consumer.streamName).groups w.consumer.consumerGroup = some g ∧
        g.pel.length < pages ∧
        ∃ p ∈ g.pel, p.id = m.id ∧
          formatMs w.config.reclaimIdleTime ≤ s.now - p.deliveredAt

/-- The worker is done with the message: it is not pending, and if it was rejected,
    an entry for it was appended to the dead letter queue. -/
structure DeliveryHandled (c : Consumer) (d : DLQ) (m : Entry Values) (s s' : Store) : Prop where
  done : ¬ StillPending c m.id s'
  recorded : (∀ e, Consumer.parseJob m.values ≠ .ok e) →
    Appended (fun v => ∃ entry, v.letter = some entry ∧
      entry.originalStreamID = m.id.toString) s s' d.streamName

/-- The message parses, and if its attempt failed, the job could be put back or was given up. -/
def Settleable (m : Entry Values) (results : Results) : Prop :=
  ∃ e, Consumer.parseJob m.values = .ok e ∧
    (e.Encodable ∨ LastAttempt e ∨ (m.id, none) ∈ results)

section Delivery

variable {D : Deployment} {t : Nat} {ch : Nat → Choice} {w : Worker} {d : DLQ}
  {m : Entry Values} {s s' : Store} {i j : Nat} {results results' : Results}

theorem inline_eq_alone {o : Op} (h : ∀ run e id, o ≠ .goProcess run e id) (x : Store × Nat)
    (results : Results) :
    inline D t ch w o (x, results) = (alone D t ch o x).map fun r => (r.1, r.2, results) := by
  cases o with
  | goProcess run e id => exact absurd rfl (h run e id)
  | _ => rfl

theorem inline_eq_some {o : Op} (ho : ∀ run e id, o ≠ .goProcess run e id) {x x' : Store × Nat}
    {r : o.Res} (h : inline D t ch w o (x, results) = some (r, x', results')) :
    alone D t ch o x = some (r, x') ∧ results' = results := by
  rw [inline_eq_alone ho] at h
  obtain ⟨⟨r', y⟩, hans, heq⟩ := Option.map_eq_some_iff.mp h
  cases heq
  exact ⟨hans, rfl⟩

theorem inline_goProcess {run : Nat} {e : JobEnvelope} {id : StreamID} {x x' : Store × Nat}
    {u : Unit} (h : inline D t ch w (.goProcess run e id) (x, results) = some (u, x', results')) :
    ∃ res y u', (processing w e).solo (alone D t ch) x = some (res, y) ∧
      (w.jobGoroutine e id).solo (alone D t ch) x = some (u', x') ∧
      results' = results ++ [(id, res)] := by
  obtain ⟨⟨res, y⟩, hres, h⟩ := Option.bind_eq_some_iff.mp h
  obtain ⟨⟨u', x''⟩, hjob, heq⟩ := Option.map_eq_some_iff.mp h
  cases heq
  exact ⟨res, y, u', hres, hjob, rfl⟩

/-- The loop that claims messages starts no goroutine. -/
theorem uses_reclaimPages (c : Consumer) (run : Nat) (idleTime : Duration) (maxBatch : Int64)
    (pages : Nat) (start : StreamID) (all : List (JobEnvelope × StreamID)) :
    (c.reclaimPages run idleTime maxBatch pages start all).Uses
      (fun o : Op => ∀ run e id, o ≠ .goProcess run e id) := by
  induction pages generalizing start all with
  | zero => trivial
  | succ pages ih =>
      refine ⟨fun _ _ _ h => (by cases h), fun reply => ?_⟩
      match reply with
      | .error .nil => trivial
      | .error .context => trivial
      | .error (.server msg) => trivial
      | .ok (messages, cursor) =>
          refine uses_ite trivial ⟨fun _ _ _ h => (by cases h), fun done => ?_⟩
          cases done with
          | true => trivial
          | false => exact ih _ _

/-- A permit is granted to a worker that is not cancelled. -/
theorem alone_semAcquire {run : Nat} (hctx : ¬ s.log.Cancelled run) {r : Bool} {x : Store × Nat}
    (h : alone D t ch (.semAcquire run) (s, i) = some (r, x)) :
    r = true ∧ x.1.streams = s.streams ∧ x.1.log = s.log := by
  obtain ⟨s', j⟩ := x
  obtain ⟨hexec, -⟩ := alone_eq_some.mp h
  simp only [exec] at hexec
  rw [if_neg fun hc => hctx hc.1] at hexec
  split at hexec
  · cases hexec
    exact ⟨rfl, rfl, rfl⟩
  · cases hexec

/-- The goroutines of the claimed messages: in the end none of these is pending, except those
    whose attempt failed and could not be put back; and for other messages nothing has
    changed. -/
theorem solo_dispatchAll (hd : w.consumer.dlq = some d) (hfail : ∀ i, (ch i).fail = none)
    {claimed : List (JobEnvelope × StreamID)} (hnodup : (claimed.map (·.2)).Nodup)
    (hpend : ∀ job ∈ claimed, StillPending w.consumer job.2 s) (hctx : ¬ s.log.Cancelled w.run)
    {u : Unit} (h : (w.dispatchAll claimed).solo (S := sig) (inline D t ch w) ((s, i), results) =
      some (u, (s', j), results')) :
    ∃ new, results' = results ++ new ∧ (∀ r ∈ new, r.1 ∈ claimed.map (·.2)) ∧
    (∀ job ∈ claimed, ¬ StillPending w.consumer job.2 s' ↔
      job.1.Encodable ∨ LastAttempt job.1 ∨ (job.2, none) ∈ new) ∧
    ∀ id ∉ claimed.map (·.2), (StillPending w.consumer id s' ↔ StillPending w.consumer id s) := by
  induction claimed generalizing s i results with
  | nil =>
      cases h
      exact ⟨[], (List.append_nil _).symm, fun _ h => absurd h List.not_mem_nil,
        fun _ h => absurd h List.not_mem_nil, fun _ _ => Iff.rfl⟩
  | cons job rest ih =>
      obtain ⟨e, id⟩ := job
      obtain ⟨hfresh, hnodup⟩ := List.nodup_cons.mp hnodup
      obtain ⟨r, ⟨⟨s₁, i₁⟩, results₁⟩, hsem, h⟩ := Prog.solo_call_eq_some (S := sig) h
      obtain ⟨hacq, rfl⟩ := inline_eq_some (o := .semAcquire w.run) (by simp) hsem
      obtain ⟨rfl, hstreams₁, hlog₁⟩ := alone_semAcquire hctx hacq
      obtain ⟨_, ⟨⟨s₂, i₂⟩, results₂⟩, hgo, h⟩ := Prog.solo_call_eq_some (S := sig) h
      obtain ⟨res, y, u', hres, hjob, rfl⟩ := inline_goProcess hgo
      have hctx₁ : ¬ s₁.log.Cancelled w.run := hlog₁ ▸ hctx
      have hpend₁ : StillPending w.consumer id s₁ :=
        (stillPending_congr hstreams₁ id).mpr (hpend _ (List.mem_cons_self ..))
      obtain ⟨hdone, haside⟩ := solo_jobGoroutine hd hfail hctx₁ hpend₁ hres hjob
      have hne : ∀ job ∈ rest, job.2 ≠ id := fun job hj heq =>
        hfresh (List.mem_map.mpr ⟨job, hj, heq⟩)
      have hpend₂ : ∀ job ∈ rest, StillPending w.consumer job.2 s₂ := fun job hj =>
        (haside.others _ (hne job hj)).mpr
          ((stillPending_congr hstreams₁ _).mpr (hpend job (List.mem_cons_of_mem _ hj)))
      obtain ⟨new, rfl, hnew, hall, hothers⟩ := ih hnodup hpend₂ (haside.live hctx₁) h
      refine ⟨(id, res) :: new, by simp, ?_, ?_, ?_⟩
      · intro r hr
        rcases List.mem_cons.mp hr with rfl | hr
        · exact List.mem_cons_self ..
        · exact List.mem_cons_of_mem _ (hnew r hr)
      · intro job hj
        rcases List.mem_cons.mp hj with rfl | hj
        · have hnot : (id, none) ∉ new := fun hmem => hfresh (hnew _ hmem)
          rw [hothers id hfresh, hdone, List.mem_cons, Prod.mk.injEq]
          simp only [hnot, true_and, or_false, eq_comm]
        · have hid : ¬ (job.2 = id ∧ none = res) := fun heq => hne job hj heq.1
          rw [hall job hj, List.mem_cons, Prod.mk.injEq, or_iff_right hid]
      · intro id' hid'
        have hne' : id' ≠ id := fun heq => hid' (heq ▸ List.mem_cons_self ..)
        have hnot : id' ∉ rest.map (·.2) := fun hmem => hid' (List.mem_cons_of_mem _ hmem)
        exact (hothers id' hnot).trans ((haside.others id' hne').trans
          (stillPending_congr hstreams₁ id'))

/-- XREADGROUP delivers the next entry. -/
theorem xreadgroup_next {V : Type} {x : Stream V} {n : String} {g : Group} {m : Entry V}
    (hg : x.groups n = some g) (hm : x.nextEntry g = some m) (consumer : String) (now : Nat) :
    ∃ x', x.xreadgroup n consumer now = some (some m, x') ∧ x'.IsPending n m.id := by
  unfold Stream.xreadgroup
  split
  · next hnone =>
      rw [hg] at hnone
      cases hnone
  · next g' hg' =>
      obtain rfl : g = g' := Option.some.inj (hg.symm.trans hg')
      split
      · next hnone =>
          rw [hm] at hnone
          cases hnone
      · next e he =>
          obtain rfl : m = e := Option.some.inj (hm.symm.trans he)
          exact ⟨_, rfl, _, Stream.setGroup_groups_self .., _,
            List.mem_append_right _ (List.mem_singleton_self _), rfl⟩

/-- The XREADGROUP of a worker that is not cancelled, with a message to read. -/
theorem alone_xReadGroup (hfail : ∀ i, (ch i).fail = none) (hctx : ¬ s.log.Cancelled w.run)
    (hm : Route.poll.Hands w s m) {block : Duration} {r : Except RedisError (List (Entry Values))}
    (h : alone D t ch (.redis (.worker w.run) (.xReadGroup w.consumer.streamName
      w.consumer.consumerGroup w.consumer.consumerName block)) (s, i) = some (r, s', j)) :
    r = .ok [m] ∧ StillPending w.consumer m.id s' ∧ ¬ s'.log.Cancelled w.run := by
  obtain ⟨g, hg, hnext⟩ := hm
  have hctx' := (exec_cancelled (alone_eq_some.mp h).1 w.run).not.mpr hctx
  obtain ⟨s₁, hx, ⟨href, -⟩ | ⟨-, hrun⟩⟩ := alone_redis h
  · exact absurd href (not_refused hfail hctx)
  · obtain ⟨x, hread, hpend⟩ := xreadgroup_next hg hnext w.consumer.consumerName s.now
    simp only [runCmd, hread] at hrun
    cases hrun
    cases hx
    refine ⟨rfl, ?_, hctx'⟩
    change Stream.IsPending (Store.streams (s.setStream _ x) _) _ _
    rw [setStream_self]
    exact hpend

/-- One round of the poll loop, on a server that answers. -/
theorem poll_done_iff (hd : w.consumer.dlq = some d) (hfail : ∀ i, (ch i).fail = none)
    (hctx : ¬ s.log.Cancelled w.run) (hm : Route.poll.Hands w s m) {u : Unit}
    (h : (w.pollLoop 1).solo (S := sig) (inline D t ch w) ((s, i), []) =
      some (u, (s', j), results)) :
    ¬ StillPending w.consumer m.id s' ↔ Settleable m results := by
  obtain ⟨done, x, hdone, h⟩ := Prog.solo_call_eq_some (S := sig) h
  cases hdone
  simp only [hctx, decide_false] at h
  change Prog.solo _ (Prog.bind (w.consumer.consume (.worker w.run) w.config.pollInterval) _) _ = _
    at h
  obtain ⟨res, ⟨⟨s₁, i₁⟩, results₁⟩, hconsume, h⟩ := Prog.solo_bind_eq_some (S := sig) h
  obtain ⟨r, ⟨⟨s₂, i₂⟩, results₂⟩, hcmd, hret⟩ := Prog.solo_call_eq_some (S := sig) hconsume
  obtain ⟨hread, rfl⟩ := inline_eq_some (by simp) hcmd
  obtain ⟨rfl, hpend, hctx₂⟩ := alone_xReadGroup hfail hctx hm hread
  cases hret
  cases hparse : Consumer.parseJob m.values with
  | error err =>
      -- the error is logged, and after a pause the loop goes on
      have hmsg : Consumer.parseMessage m = .error err := by
        simp only [Consumer.parseMessage, hparse, Except.map]
      rw [hmsg] at h
      obtain ⟨won, ⟨⟨s₃, i₃⟩, results₃⟩, hwait, h⟩ := Prog.solo_call_eq_some (S := sig) h
      obtain ⟨htimer, rfl⟩ := inline_eq_some (o := .timerOrDone w.run) (by simp) hwait
      cases htimer
      simp only [hctx₂, decide_false, Bool.false_and] at h
      cases h
      refine iff_of_false (not_not_intro hpend) ?_
      rintro ⟨e, he, -⟩
      rw [hparse] at he
      cases he
  | ok e =>
      have hmsg : Consumer.parseMessage m = .ok (e, m.id) := parseMessage_eq_ok.mpr ⟨hparse, rfl⟩
      rw [hmsg] at h
      obtain ⟨acquired, ⟨⟨s₃, i₃⟩, results₃⟩, hsem, h⟩ := Prog.solo_call_eq_some (S := sig) h
      obtain ⟨hacq, rfl⟩ := inline_eq_some (o := .semAcquire w.run) (by simp) hsem
      obtain ⟨rfl, hstreams₃, hlog₃⟩ := alone_semAcquire hctx₂ hacq
      obtain ⟨_, ⟨⟨s₄, i₄⟩, results₄⟩, hgo, h⟩ := Prog.solo_call_eq_some (S := sig) h
      obtain ⟨res, y, u', hres, hjob, rfl⟩ := inline_goProcess hgo
      cases h
      have hctx₃ : ¬ s₃.log.Cancelled w.run := hlog₃ ▸ hctx₂
      have hpend₃ := (stillPending_congr hstreams₃ m.id).mpr hpend
      obtain ⟨hdone, -⟩ := solo_jobGoroutine hd hfail hctx₃ hpend₃ hres hjob
      unfold Settleable
      rw [hdone, hparse]
      simp [eq_comm]

/-- One reclaim, on a server that answers. -/
theorem reclaim_done_iff (hd : w.consumer.dlq = some d) (hfail : ∀ i, (ch i).fail = none)
    (hctx : ¬ s.log.Cancelled w.run) {pages : Nat} (hm : (Route.reclaim pages).Hands w s m)
    {res : Except String Unit}
    (h : (w.reclaimStale pages).solo (S := sig) (inline D t ch w) ((s, i), []) =
      some (res, (s', j), results)) :
    ¬ StillPending w.consumer m.id s' ↔ Settleable m results := by
  obtain ⟨hmem, hbatch, g, hg, hlen, p, hp, hpid, hidle⟩ := hm
  have hpages : (g.pel.filter fun p => decide (StreamID.zero ≤ p.id)).length < pages := by
    rw [filter_zero]
    exact hlen
  obtain ⟨s₁, i₁, hloop, hswept⟩ := solo_reclaimPages D t w.config.reclaimIdleTime hbatch hfail hctx
    hg hpages [] i
  rw [filter_zero, List.nil_append] at hloop
  -- the loop starts no goroutine
  have hsame : ∀ (o : Op) (x : Store × Nat), (∀ run e id, o ≠ .goProcess run e id) →
      inline D t ch w o (x, []) = (alone D t ch o x).map fun r => (r.1, r.2, []) :=
    fun o x ho => inline_eq_alone ho x []
  have hinline := Prog.solo_map (S := sig) (f := fun x : Store × Nat => (x, ([] : Results))) hsame
    (uses_reclaimPages w.consumer w.run w.config.reclaimIdleTime w.config.reclaimBatchSize pages
      .zero []) (s, i)
  rw [hloop] at hinline
  have h := (Prog.solo_seq (S := sig) hinline _).symm.trans h
  obtain ⟨u, ⟨⟨s₂, i₂⟩, results₂⟩, hdispatch, hret⟩ := Prog.solo_bind_eq_some (S := sig) h
  cases hret
  set claimed := Consumer.parsed ((s.streams w.consumer.streamName).due
    (formatMs w.config.reclaimIdleTime) s.now g.pel)
  have hnodup : (claimed.map (·.2)).Nodup :=
    (parsed_sorted (Stream.due_sorted g.sorted)).imp ne_of_lt
  have hpending : ∀ job ∈ claimed, StillPending w.consumer job.2 s₁ := by
    rintro ⟨e, id⟩ hjob
    obtain ⟨v, hv, -⟩ := mem_parsed.mp hjob
    obtain ⟨hstored, q, hq, hqid, -⟩ := Stream.mem_due.mp hv
    exact hswept.pending ⟨id, v⟩ hstored ⟨g, hg, q, hq, hqid⟩
  obtain ⟨new, rfl, -, hall, hothers⟩ :=
    solo_dispatchAll hd hfail hnodup hpending hswept.live hdispatch
  by_cases hparse : ∃ e, Consumer.parseJob m.values = .ok e
  · obtain ⟨e, hparse⟩ := hparse
    have hjob : (e, m.id) ∈ claimed :=
      mem_parsed.mpr ⟨m.values, Stream.mem_due.mpr ⟨hmem, p, hp, hpid, hidle⟩, hparse⟩
    unfold Settleable
    rw [hall _ hjob, hparse]
    simp
  · -- no other entry has this id, so it is not among the claimed ones
    have hnot : m.id ∉ claimed.map (·.2) := by
      intro hin
      obtain ⟨⟨e, id⟩, hjob, rfl⟩ := List.mem_map.mp hin
      obtain ⟨v, hv, he⟩ := mem_parsed.mp hjob
      have heq := Stream.eq_of_id (Stream.mem_due.mp hv).1 hmem rfl
      rw [← heq] at hparse
      exact hparse ⟨e, he⟩
    have hpend : StillPending w.consumer m.id s₁ :=
      hswept.pending m hmem ⟨g, hg, p, hp, hpid⟩
    refine iff_of_false (not_not_intro ((hothers m.id hnot).mpr hpend)) ?_
    rintro ⟨e, he, -⟩
    exact hparse ⟨e, he⟩

/-- A delivery of any message, by either route, to a worker that is not cancelled and
    all of whose commands are answered: it is handled as it should be exactly if the
    message parses, and the attempt did not fail or the job could be put back or given up. -/
theorem delivery_handled_iff (hd : w.consumer.dlq = some d) (route : Route)
    (hm : route.Hands w s m) (hfail : ∀ i, (ch i).fail = none) (hctx : ¬ s.log.Cancelled w.run)
    (hrun : (route.program w).solo (S := sig) (inline D t ch w) ((s, 0), []) =
      some ((), (s', j), results)) :
    DeliveryHandled w.consumer d m s s' ↔ Settleable m results := by
  have hdone : ¬ StillPending w.consumer m.id s' ↔ Settleable m results := by
    cases route with
    | poll => exact poll_done_iff hd hfail hctx hm hrun
    | reclaim pages =>
        obtain ⟨res, ⟨⟨s₁, i₁⟩, results₁⟩, hreclaim, hret⟩ := Prog.solo_bind_eq_some (S := sig) hrun
        cases hret
        exact reclaim_done_iff hd hfail hctx hm hreclaim
  constructor
  · exact fun h => hdone.mp h.done
  · intro hset
    obtain ⟨e, he, -⟩ := id hset
    exact ⟨hdone.mpr hset, fun hrejected => absurd he (hrejected e)⟩

end Delivery

-- ============================================================================
-- Two deliveries
-- ============================================================================

/-- The worker of `someConsumer`, and a server on which its one pending message has
    been idle for a minute. -/
def someWorker : Worker := (Deployment.ofDefaults true).worker 0

@[inherit_doc someWorker]
def minuteLater (v : Values) : Store := { oneHeld v with now := 60000 }

theorem hands_minuteLater (v : Values) :
    (Route.reclaim 2).Hands someWorker (minuteLater v) ⟨.of 1 0, v⟩ := by
  have hstream : (minuteLater v).streams someWorker.consumer.streamName =
      heldStream (.of 1 0) zero_lt_first v := oneHeld_stream v
  have hidle : formatMs someWorker.config.reclaimIdleTime ≤ 60000 := by decide +kernel
  unfold Route.Hands
  rw [hstream]
  exact ⟨List.mem_singleton_self _, by decide +kernel, _, rfl, Nat.lt_add_one 1, _,
    List.mem_singleton_self _, rfl, hidle⟩

/-- The text of an envelope with attempts left. -/
def someText : Text := .json (.obj [("job_id", .str "j"), ("max_retries", .num (.int 3))])

theorem parseJob_someText :
    ∃ e, Consumer.parseJob (jobValues someText) = .ok e ∧ e.Encodable := by
  refine ⟨_, rfl, ?_⟩
  rintro ev ⟨⟩

/-- Every command is executed, and every attempt fails. -/
def attemptFails : Nat → Choice := fun _ => { id := .of 2 0, result := some "boom" }

theorem not_cancelled_minuteLater (v : Values) (run : Nat) :
    ¬ (minuteLater v).log.Cancelled run := by
  rintro ⟨e, he, -⟩
  cases he

/-- A message that parses is reclaimed, its attempt fails, and a copy of the job is added
    before the message is acknowledged. -/
theorem delivery_handled_iff_reclaimed : ∃ s' j results,
    ((Route.reclaim 2).program someWorker).solo (S := sig)
      (inline (.ofDefaults true) 0 attemptFails someWorker)
      ((minuteLater (jobValues someText), 0), []) = some ((), (s', j), results) ∧
    results = [(.of 1 0, some "boom")] ∧
    (s'.streams someWorker.consumer.streamName).entries.map (·.id) = [.of 1 0, .of 2 0] ∧
    DeliveryHandled someWorker.consumer (Deployment.ofDefaults true).dlq
      ⟨.of 1 0, jobValues someText⟩ (minuteLater (jobValues someText)) s' := by
  have hrun : ∃ x ∈ ((Route.reclaim 2).program someWorker).solo (S := sig)
      (inline (.ofDefaults true) 0 attemptFails someWorker)
      ((minuteLater (jobValues someText), 0), []),
      x.2.2 = [(.of 1 0, some "boom")] ∧
      (x.2.1.1.streams someWorker.consumer.streamName).entries.map (·.id) =
        [.of 1 0, .of 2 0] := by
    decide +kernel
  obtain ⟨⟨_, ⟨s', j⟩, results⟩, hrun, hresults, hids⟩ := hrun
  have hiff := delivery_handled_iff (d := (Deployment.ofDefaults true).dlq) rfl (.reclaim 2)
    (hands_minuteLater _) (fun _ => rfl) (not_cancelled_minuteLater _ _) hrun
  obtain ⟨e, he, hencodable⟩ := parseJob_someText
  exact ⟨s', j, results, hrun, hresults, hids, hiff.mpr ⟨e, he, Or.inl hencodable⟩⟩

/-- A message without a `job` field is reclaimed, rejected and left in the pending
    list. -/
theorem rejected_stays_pending : ∃ s' j results,
    ((Route.reclaim 2).program someWorker).solo (S := sig)
      (inline (.ofDefaults true) 0 (fun _ => {}) someWorker) ((minuteLater [], 0), []) =
      some ((), (s', j), results) ∧
    ¬ DeliveryHandled someWorker.consumer (Deployment.ofDefaults true).dlq ⟨.of 1 0, []⟩
      (minuteLater []) s' := by
  have hrun : ∃ res s' j results, (someWorker.reclaimStale 2).solo (S := sig)
      (inline (.ofDefaults true) 0 (fun _ => {}) someWorker) ((minuteLater [], 0), []) =
      some (res, (s', j), results) := ⟨_, _, _, _, rfl⟩
  obtain ⟨res, s', j, results, hrun⟩ := hrun
  have hiff := reclaim_done_iff (d := (Deployment.ofDefaults true).dlq) rfl (fun _ => rfl)
    (not_cancelled_minuteLater _ _) (hands_minuteLater []) hrun
  refine ⟨s', j, results, Prog.solo_seq (S := sig) hrun _, fun hhandled => ?_⟩
  obtain ⟨e, he, -⟩ := hiff.mp hhandled.done
  cases he

end LogPipeline.Cluster
