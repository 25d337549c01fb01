/-
  LogPipeline.Cluster.Batch

  `EnqueueBatch`: its pipeline under failures, and its agreement with repeated
  calls of `Enqueue`.

  The commands of a pipeline succeed and fail one by one, so a batch some of whose
  commands fail returns an error and has added the events of the others
  (`batch_all_or_nothing_iff`).  On a server that answers, a batch of events that can
  be marshalled leaves what the same calls of `Enqueue` leave (`batch_agrees_iff`).
-/

import LogPipeline.Cluster.Solo
import LogPipeline.Cluster.Runs

namespace LogPipeline.Cluster

open Conc Go Redis Queue

-- ============================================================================
-- Building the arguments
-- ============================================================================

/-- The server has not changed, and neither has any context. -/
structure Unmoved (s s' : Store) : Prop where
  streams : s'.streams = s.streams
  keys : s'.keys = s.keys
  ctx : ∀ ctx, s'.log.CtxDone ctx ↔ s.log.CtxDone ctx

theorem Unmoved.refl {s : Store} : Unmoved s s := ⟨rfl, rfl, fun _ => Iff.rfl⟩

theorem Unmoved.trans {s₁ s₂ s₃ : Store} (h : Unmoved s₁ s₂) (h' : Unmoved s₂ s₃) :
    Unmoved s₁ s₃ :=
  ⟨h'.streams.trans h.streams, h'.keys.trans h.keys, fun ctx => (h'.ctx ctx).trans (h.ctx ctx)⟩

/-- The envelope is one that `Enqueue` makes of the event: everything but the job id
    and the time is determined. -/
structure EnvelopeOf (cfg : QueueConfig) (ev : LogEvent) (e : JobEnvelope) : Prop where
  data : e.data = some ev
  retryCount : e.retryCount = 0
  maxRetries : e.maxRetries = cfg.redisMaxRetries
  eventType : e.eventType = "log_event"
  lastError : e.lastError = ""

/-- The fields hold the event's job. -/
def JobOf (cfg : QueueConfig) (ev : LogEvent) (v : Values) : Prop :=
  ∃ e, v.job = some e ∧ EnvelopeOf cfg ev e

/-- The arguments are those of an XADD of the event. -/
structure ArgsOf (cfg : QueueConfig) (args : XAddArgs) (ev : LogEvent) : Prop where
  stream : args.stream = streamNameFor cfg ev.service
  job : JobOf cfg ev args.values

section Build

variable {D : Deployment} {t : Nat} {ch : Nat → Choice} {cfg : QueueConfig} {s s' : Store}
  {i j : Nat}

theorem solo_buildJobEnvelope {ev : LogEvent} {e : JobEnvelope}
    (h : (buildJobEnvelope ev cfg.redisMaxRetries).solo (alone D t ch) (s, i) = some (e, s', j)) :
    EnvelopeOf cfg ev e ∧ Unmoved s s' ∧ j = i + 2 := by
  obtain ⟨id, ⟨s₁, i₁⟩, huuid, h⟩ := Prog.solo_call_eq_some (S := sig) h
  obtain ⟨now, x, hnow, h⟩ := Prog.solo_call_eq_some (S := sig) h
  obtain rfl := alone_now hnow
  cases huuid
  cases h
  refine ⟨⟨rfl, rfl, rfl, rfl, rfl⟩, ⟨rfl, rfl, ?_⟩, rfl⟩
  intro ctx
  cases ctx with
  | background => rfl
  | worker run => exact cancelled_record rfl Ev.noConfusion

/-- The arguments exist if the event can be marshalled. -/
theorem buildXAddArgs_cases {ev : LogEvent} {e : JobEnvelope} (he : EnvelopeOf cfg ev e)
    (stream : String) (maxLen : Int64) :
    (ev.Encodable ∧ ∃ args, buildXAddArgs stream maxLen e = .ok args ∧ args.stream = stream ∧
      JobOf cfg ev args.values) ∨
    (¬ ev.Encodable ∧ ∃ err, buildXAddArgs stream maxLen e = .error err) := by
  have henc : e.Encodable ↔ ev.Encodable := by
    unfold JobEnvelope.Encodable
    rw [he.data]
    constructor
    · exact fun h => h ev rfl
    · rintro h _ ⟨⟩
      exact h
  cases hargs : buildXAddArgs stream maxLen e with
  | ok args =>
      obtain ⟨text, htext, rfl⟩ := buildXAddArgs_ok hargs
      left
      exact ⟨henc.mp (JobEnvelope.marshal_ok_iff.mp ⟨text, htext⟩), _, rfl, rfl, e,
        job_jobValues htext, he⟩
  | error err =>
      right
      refine ⟨fun hev => ?_, err, rfl⟩
      obtain ⟨text, htext⟩ := JobEnvelope.marshal_ok_iff.mpr (henc.mpr hev)
      unfold buildXAddArgs at hargs
      rw [htext] at hargs
      cases hargs

/-- The first loop of `EnqueueBatch` sends nothing.  It makes two calls for each event
    and returns the arguments of all, unless one of them cannot be marshalled. -/
theorem solo_buildBatch {evs : List LogEvent} {res : Except String (List XAddArgs)}
    (h : (buildBatch cfg evs).solo (alone D t ch) (s, i) = some (res, s', j)) :
    Unmoved s s' ∧
    (((∀ ev ∈ evs, ev.Encodable) ∧ j = i + 2 * evs.length ∧
        ∃ batch, res = .ok batch ∧ List.Forall₂ (ArgsOf cfg) batch evs) ∨
      (¬ (∀ ev ∈ evs, ev.Encodable) ∧ ∃ err, res = .error err)) := by
  induction evs generalizing s i res s' j with
  | nil =>
      cases h
      exact ⟨.refl, Or.inl ⟨fun _ h => absurd h List.not_mem_nil, rfl, [], rfl, .nil⟩⟩
  | cons ev rest ih =>
      obtain ⟨e, ⟨s₁, i₁⟩, hbuild, h⟩ := Prog.solo_bind_eq_some (S := sig) h
      obtain ⟨he, hstill, rfl⟩ := solo_buildJobEnvelope hbuild
      rcases buildXAddArgs_cases he (streamNameFor cfg ev.service) cfg.maxLen with
        ⟨hev, args, hargs, hstream, hjob⟩ | ⟨hev, err, hargs⟩
      · simp only [hargs] at h
        obtain ⟨res', ⟨s₂, i₂⟩, hrest, h⟩ := Prog.solo_bind_eq_some (S := sig) h
        obtain ⟨hstill', ⟨hall, hj, batch, rfl, hbatch⟩ | ⟨hnot, err, rfl⟩⟩ := ih hrest
        · cases h
          refine ⟨hstill.trans hstill',
            Or.inl ⟨?_, ?_, args :: batch, rfl, .cons ⟨hstream, hjob⟩ hbatch⟩⟩
          · exact List.forall_mem_cons.mpr ⟨hev, hall⟩
          · rw [List.length_cons]
            omega
        · cases h
          refine ⟨hstill.trans hstill', Or.inr ⟨fun hall => hnot ?_, err, rfl⟩⟩
          exact (List.forall_mem_cons.mp hall).2
      · simp only [hargs] at h
        cases h
        exact ⟨hstill, Or.inr ⟨fun hall => hev (List.forall_mem_cons.mp hall).1, err, rfl⟩⟩

end Build

-- ============================================================================
-- The pipeline under failures
-- ============================================================================

section Pipeline

variable {D : Deployment} {t : Nat} {ch : Nat → Choice} {ctx : Ctx} {s s' : Store} {i j : Nat}

/-- Some stream has an entry that was not in `s`. -/
def Grown (s s' : Store) : Prop := ∃ stream, Appended (fun _ => True) s s' stream

theorem Grown.congr {s s₁ s₂ : Store} (h : s₂.streams = s₁.streams) :
    Grown s s₂ ↔ Grown s s₁ := by
  unfold Grown Appended
  rw [h]

theorem Grown.congr_left {s₁ s₂ s' : Store} (h : s₂.streams = s₁.streams) :
    Grown s₂ s' ↔ Grown s₁ s' := by
  unfold Grown Appended
  rw [h]

/-- What a stream has got is not trimmed away by the XADDs that follow: the newest
    entry always stays. -/
theorem Grown.xAdd {ch : Choice} {s s₁ s₂ : Store} {stream : String} {maxLen : Int64}
    {v : Values} {r : Except RedisError StreamID} (h : Grown s s₁)
    (hadd : runCmd ch s₁ (.xAdd stream maxLen v) = some (r, s₂)) : Grown s s₂ := by
  obtain ⟨name, e, he, hid, -⟩ := h
  refine ⟨name, ?_⟩
  by_cases hname : name = stream
  · subst hname
    obtain ⟨e', he', hid', -⟩ := appended_xAdd (φ := fun _ => True) hadd trivial
    exact ⟨e', he', hid.trans (lt_of_le_of_lt ((s₁.streams name).le_last e he) hid'), trivial⟩
  · obtain ⟨-, -, hlt, rfl⟩ := runCmd_xAdd hadd
    refine ⟨e, ?_, hid, trivial⟩
    rw [setStream_ne s₁ _ hname]
    exact he

/-- The first command of a pipeline, and the rest of it. -/
theorem execPipeline_cons {args : XAddArgs} {rest : List XAddArgs}
    {replies : List (Except RedisError StreamID)}
    (h : (execPipeline ctx (args :: rest)).solo (alone D t ch) (s, i) = some (replies, s', j)) :
    ∃ r rs s₁, replies = r :: rs ∧
      (execPipeline ctx rest).solo (alone D t ch) (s₁, i + 1) = some (rs, s', j) ∧
      (∀ ch, Refused ch ctx s₁ ↔ Refused ch ctx s) ∧
      ((Refused (ch i) ctx s ∧ (∃ err, r = .error err) ∧ s₁.streams = s.streams ∧
          s₁.keys = s.keys) ∨
        (¬ Refused (ch i) ctx s ∧ ∃ s₂,
          runCmd (ch i) s (.xAdd args.stream args.maxLen args.values) = some (r, s₂) ∧
          s₁.streams = s₂.streams ∧ s₁.keys = s₂.keys)) := by
  obtain ⟨r, x, hans, h⟩ := Prog.solo_call_eq_some (S := sig) h
  change Prog.solo _ (Prog.bind (execPipeline ctx rest) _) _ = _ at h
  obtain ⟨rs, ⟨s₂, i₂⟩, hrest, hret⟩ := Prog.solo_bind_eq_some (S := sig) h
  cases hret
  obtain ⟨s₁, rfl, hcases⟩ := alone_redis hans
  have hlog : s₁.log = s.log := by
    rcases hcases with ⟨-, -, rfl⟩ | ⟨-, hrun⟩
    · rfl
    · exact (runCmd_frame hrun).log
  refine ⟨r, rs, _, rfl, hrest, fun ch => refused_record_cmd hlog, ?_⟩
  rcases hcases with ⟨href, herr, rfl⟩ | ⟨hsent, hrun⟩
  · exact Or.inl ⟨href, herr, rfl, rfl⟩
  · exact Or.inr ⟨hsent, s₁, hrun, rfl, rfl⟩

/-- The command at a place of the rest is the next one of the whole pipeline. -/
theorem refused_next {s₁ : Store} (hctx : ∀ ch, Refused ch ctx s₁ ↔ Refused ch ctx s) (k : Nat) :
    Refused (ch (i + 1 + k)) ctx s₁ ↔ Refused (ch (i + (k + 1))) ctx s := by
  rw [hctx, Nat.add_assoc, Nat.add_comm 1 k]

/-- A command is answered with an error exactly if it is refused. -/
theorem replies_error_iff {batch : List XAddArgs} {replies : List (Except RedisError StreamID)}
    (h : (execPipeline ctx batch).solo (alone D t ch) (s, i) = some (replies, s', j)) :
    (∃ r ∈ replies, ∃ err, r = .error err) ↔
      ∃ k < batch.length, Refused (ch (i + k)) ctx s := by
  induction batch generalizing s i replies with
  | nil =>
      cases h
      simp
  | cons args rest ih =>
      obtain ⟨r, rs, s₁, rfl, hrest, hctx, hcases⟩ := execPipeline_cons h
      have hhead : (∃ err, r = .error err) ↔ Refused (ch i) ctx s := by
        rcases hcases with ⟨href, herr, -⟩ | ⟨hsent, s₂, hrun, -⟩
        · exact iff_of_true herr href
        · refine iff_of_false ?_ hsent
          rw [(runCmd_xAdd hrun).1]
          rintro ⟨err, herr⟩
          cases herr
      rw [List.exists_mem_cons_iff, hhead, ih hrest]
      constructor
      · rintro (href | ⟨k, hk, href⟩)
        · exact ⟨0, Nat.succ_pos _, href⟩
        · exact ⟨k + 1, Nat.succ_lt_succ hk, (refused_next hctx k).mp href⟩
      · rintro ⟨k, hk, href⟩
        cases k with
        | zero => exact Or.inl href
        | succ k => exact Or.inr ⟨k, Nat.lt_of_succ_lt_succ hk, (refused_next hctx k).mpr href⟩

/-- A pipeline that is refused changes nothing. -/
theorem streams_of_refused {batch : List XAddArgs} {replies : List (Except RedisError StreamID)}
    (h : (execPipeline ctx batch).solo (alone D t ch) (s, i) = some (replies, s', j))
    (hall : ∀ k < batch.length, Refused (ch (i + k)) ctx s) : s'.streams = s.streams := by
  induction batch generalizing s i replies with
  | nil =>
      cases h
      rfl
  | cons args rest ih =>
      obtain ⟨r, rs, s₁, rfl, hrest, hctx, hcases⟩ := execPipeline_cons h
      rcases hcases with ⟨-, -, hstreams, -⟩ | ⟨hsent, -⟩
      · rw [ih hrest ?_, hstreams]
        intro k hk
        exact (refused_next hctx k).mpr (hall (k + 1) (Nat.succ_lt_succ hk))
      · exact absurd (hall 0 (Nat.succ_pos _)) hsent

/-- What was there before is there after the pipeline. -/
theorem Grown.execPipeline {s₀ : Store} {batch : List XAddArgs}
    {replies : List (Except RedisError StreamID)} (hgrown : Grown s₀ s)
    (h : (execPipeline ctx batch).solo (alone D t ch) (s, i) = some (replies, s', j)) :
    Grown s₀ s' := by
  induction batch generalizing s i replies with
  | nil =>
      cases h
      exact hgrown
  | cons args rest ih =>
      obtain ⟨r, rs, s₁, rfl, hrest, -, hcases⟩ := execPipeline_cons h
      refine ih ?_ hrest
      rcases hcases with ⟨-, -, hstreams, -⟩ | ⟨-, s₂, hrun, hstreams, -⟩
      · exact (Grown.congr hstreams).mpr hgrown
      · exact (Grown.congr hstreams).mpr (hgrown.xAdd hrun)

/-- A pipeline with a command that is executed adds something. -/
theorem grown_of_sent {batch : List XAddArgs} {replies : List (Except RedisError StreamID)}
    (h : (execPipeline ctx batch).solo (alone D t ch) (s, i) = some (replies, s', j)) {k : Nat}
    (hk : k < batch.length) (hsent : ¬ Refused (ch (i + k)) ctx s) : Grown s s' := by
  induction batch generalizing s i replies k with
  | nil => exact absurd hk (Nat.not_lt_zero k)
  | cons args rest ih =>
      obtain ⟨r, rs, s₁, rfl, hrest, hctx, hcases⟩ := execPipeline_cons h
      rcases hcases with ⟨href, -, hstreams, -⟩ | ⟨-, s₂, hrun, hstreams, -⟩
      · cases k with
        | zero => exact absurd href hsent
        | succ k =>
            refine (Grown.congr_left hstreams).mp (ih hrest (Nat.lt_of_succ_lt_succ hk) ?_)
            exact mt (refused_next hctx k).mp hsent
      · have hgrown : Grown s s₂ := ⟨args.stream, appended_xAdd hrun trivial⟩
        exact Grown.execPipeline ((Grown.congr hstreams).mpr hgrown) hrest

end Pipeline

-- ============================================================================
-- All or nothing
-- ============================================================================

/-- `pipe.Exec` returns an error exactly if some command failed. -/
theorem mapM_id_eq_error {replies : List (Except RedisError StreamID)} :
    (∃ err, replies.mapM id = .error err) ↔ ∃ r ∈ replies, ∃ err, r = .error err := by
  induction replies with
  | nil => simp [pure, Except.pure]
  | cons r rs ih =>
      rw [List.mapM_cons, List.exists_mem_cons_iff, ← ih]
      cases r with
      | error err => simp [bind, Except.bind]
      | ok new =>
          cases hrs : rs.mapM id with
          | error err => simp [bind, Except.bind]
          | ok ids => simp [bind, Except.bind, pure, Except.pure]

section Batch

variable {D : Deployment} {t : Nat} {ch : Nat → Choice} {cfg : QueueConfig} {ctx : Ctx}
  {evs : List LogEvent} {s s' : Store} {i j : Nat} {res : Except String (List StreamID)}

/-- A run of `EnqueueBatch` on some events: it stops at an event that cannot be
    marshalled, or sends all commands and returns what `pipe.Exec` says. -/
theorem solo_enqueueBatch (hne : evs ≠ [])
    (h : (enqueueBatch cfg ctx evs).solo (alone D t ch) (s, i) = some (res, s', j)) :
    (¬ (∀ ev ∈ evs, ev.Encodable) ∧ (∃ err, res = .error err) ∧ Unmoved s s') ∨
    ((∀ ev ∈ evs, ev.Encodable) ∧ ∃ batch replies s₁, Unmoved s s₁ ∧
      List.Forall₂ (ArgsOf cfg) batch evs ∧
      (execPipeline ctx batch).solo (alone D t ch) (s₁, i + 2 * evs.length) =
        some (replies, s', j) ∧
      ((∃ err, res = .error err) ↔ ∃ err, replies.mapM id = .error err) ∧
      ∀ ids, res = .ok ids ↔ replies.mapM id = .ok ids) := by
  unfold enqueueBatch at h
  rw [if_neg hne] at h
  obtain ⟨built, ⟨s₁, i₁⟩, hbuild, h⟩ := Prog.solo_bind_eq_some (S := sig) h
  obtain ⟨hstill, ⟨hall, rfl, batch, rfl, hbatch⟩ | ⟨hnot, err, rfl⟩⟩ := solo_buildBatch hbuild
  · obtain ⟨replies, ⟨s₂, i₂⟩, hpipe, h⟩ := Prog.solo_bind_eq_some (S := sig) h
    right
    refine ⟨hall, batch, replies, s₁, hstill, hbatch, ?_⟩
    cases hrep : replies.mapM id with
    | error err =>
        rw [hrep] at h
        cases h
        exact ⟨hpipe, by simp, by simp⟩
    | ok ids =>
        rw [hrep] at h
        cases h
        exact ⟨hpipe, by simp, by simp⟩
  · cases h
    exact Or.inl ⟨hnot, ⟨err, rfl⟩, hstill⟩

/-- Every event can be marshalled, and of the XADDs, which follow the two calls for each
    event, one fails and one does not. -/
def PartialFailure (ctx : Ctx) (evs : List LogEvent) (s : Store) (ch : Nat → Choice) : Prop :=
  (∀ ev ∈ evs, ev.Encodable) ∧
  (∃ k < evs.length, Refused (ch (2 * evs.length + k)) ctx s) ∧
  ∃ k < evs.length, ¬ Refused (ch (2 * evs.length + k)) ctx s

theorem not_grown_of_streams (h : s'.streams = s.streams) : ¬ Grown s s' := by
  rintro ⟨stream, happ⟩
  exact not_appended_of_entries (by rw [h]) happ

/-- A batch that returns an error has added nothing, unless some of its commands fail
    and some do not. -/
theorem batch_all_or_nothing_iff
    (hrun : (enqueueBatch cfg ctx evs).solo (alone D t ch) (s, 0) = some (res, s', j)) :
    ((∃ err, res = .error err) → ¬ Grown s s') ↔ ¬ PartialFailure ctx evs s ch := by
  by_cases hne : evs = []
  · subst hne
    cases hrun
    refine iff_of_true (fun ⟨err, herr⟩ => by cases herr) ?_
    rintro ⟨-, ⟨k, hk, -⟩, -⟩
    exact absurd hk (Nat.not_lt_zero k)
  rcases solo_enqueueBatch hne hrun with
    ⟨hnot, -, hstill⟩ | ⟨hall, batch, replies, s₁, hstill, hbatch, hpipe, herr, -⟩
  · exact iff_of_true (fun _ => not_grown_of_streams hstill.streams) fun hpart => hnot hpart.1
  · have hlen : batch.length = evs.length := hbatch.length_eq
    have href : ∀ ch, Refused ch ctx s₁ ↔ Refused ch ctx s := by
      intro ch
      unfold Refused
      rw [hstill.ctx]
    have herror := replies_error_iff hpipe
    rw [Nat.zero_add, hlen] at herror
    simp only [href] at herror
    rw [herr, mapM_id_eq_error, herror]
    constructor
    · rintro hnone ⟨-, hfails, k, hk, hsent⟩
      rw [← hlen] at hk
      refine hnone hfails ((Grown.congr_left hstill.streams).mp (grown_of_sent hpipe hk ?_))
      rw [Nat.zero_add, href]
      exact hsent
    · intro hpart hfails
      have hrefused : ∀ k < batch.length, Refused (ch (0 + 2 * evs.length + k)) ctx s₁ := by
        intro k hk
        rw [Nat.zero_add, href]
        by_contra hsent
        exact hpart ⟨hall, hfails, k, hlen ▸ hk, hsent⟩
      exact not_grown_of_streams ((streams_of_refused hpipe hrefused).trans hstill.streams)

end Batch

/-- A batch of two events. -/
def twoEvents : List LogEvent := [.zero, .zero]

theorem twoEvents_encodable : ∀ ev ∈ twoEvents, ev.Encodable := by
  intro ev hev
  simp only [twoEvents, List.mem_cons, List.not_mem_nil, or_false, or_self] at hev
  rw [hev]
  exact ⟨⟨_, rfl⟩, Timestamp.zero_zoneInRange⟩

/-- Both commands are lost, and nothing is added. -/
theorem batch_all_or_nothing_iff_lost : ∃ err s' j,
    (enqueueBatch Config.getDefaults.queue .background twoEvents).solo
      (alone (.ofDefaults true) 0 fun _ => { fail := some "connection reset" }) (Store.init, 0) =
      some (.error err, s', j) ∧ ¬ Grown Store.init s' := by
  have hrun : ∃ err s' j, (enqueueBatch Config.getDefaults.queue .background twoEvents).solo
      (alone (.ofDefaults true) 0 fun _ => { fail := some "connection reset" }) (Store.init, 0) =
      some (.error err, s', j) := ⟨_, _, _, rfl⟩
  obtain ⟨err, s', j, hrun⟩ := hrun
  refine ⟨err, s', j, hrun, (batch_all_or_nothing_iff hrun).mpr ?_ ⟨err, rfl⟩⟩
  rintro ⟨-, -, k, -, hsent⟩
  exact hsent (Or.inr (Option.some_ne_none _))

/-- The last of the six calls, the XADD of the second event, is lost. -/
def sixthFails : Nat → Choice := fun i =>
  if i = 5 then { fail := some "connection reset" } else { id := .of 1 0 }

/-- The second XADD is lost; the batch returns an error and its first event is in the
    stream. -/
theorem batch_half_added : ∃ err s' j,
    (enqueueBatch Config.getDefaults.queue .background twoEvents).solo
      (alone (.ofDefaults true) 0 sixthFails) (Store.init, 0) = some (.error err, s', j) ∧
    Grown Store.init s' := by
  have hrun : ∃ err s' j, (enqueueBatch Config.getDefaults.queue .background twoEvents).solo
      (alone (.ofDefaults true) 0 sixthFails) (Store.init, 0) = some (.error err, s', j) :=
    ⟨_, _, _, rfl⟩
  obtain ⟨err, s', j, hrun⟩ := hrun
  refine ⟨err, s', j, hrun, ?_⟩
  rcases solo_enqueueBatch (List.cons_ne_nil _ _) hrun with
    ⟨hnot, -⟩ | ⟨-, batch, replies, s₁, hstill, hbatch, hpipe, -⟩
  · exact absurd twoEvents_encodable hnot
  · have hlen : batch.length = 2 := hbatch.length_eq
    refine (Grown.congr_left hstill.streams).mp (grown_of_sent hpipe (k := 0) (by omega) ?_)
    rintro (hdone | hlost)
    · exact hdone
    · exact hlost rfl

-- ============================================================================
-- On a server that answers
-- ============================================================================

/-- The events were appended to the streams they are routed to, in order, with these
    ids, and nothing else has changed. -/
structure Enqueued (cfg : QueueConfig) (s s' : Store) (evs : List LogEvent)
    (ids : List StreamID) : Prop where
  entries : ∀ stream, ∃ added,
    (s'.streams stream).entries = (s.streams stream).entries ++ added ∧
    List.Forall₂ (fun (x : Entry Values) ev => JobOf cfg ev x.values) added
      (evs.filter fun ev => decide (streamNameFor cfg ev.service = stream))
  groups : ∀ stream, (s'.streams stream).groups = (s.streams stream).groups
  other : ∀ stream, (∀ ev ∈ evs, streamNameFor cfg ev.service ≠ stream) →
    s'.streams stream = s.streams stream
  keys : s'.keys = s.keys
  ids : List.Forall₂ (fun id ev => ∃ v,
    ⟨id, v⟩ ∈ (s'.streams (streamNameFor cfg ev.service)).entries ∧ JobOf cfg ev v) ids evs

namespace Enqueued

variable {cfg : QueueConfig} {s s₁ s' : Store} {ev : LogEvent} {evs : List LogEvent}
  {id : StreamID} {ids : List StreamID}

theorem nil (hstreams : s'.streams = s.streams) (hkeys : s'.keys = s.keys) :
    Enqueued cfg s s' [] [] where
  entries := fun stream => ⟨[], by rw [hstreams, List.append_nil], .nil⟩
  groups := fun stream => by rw [hstreams]
  other := fun stream _ => by rw [hstreams]
  keys := hkeys
  ids := .nil

/-- One XADD that evicts nothing. -/
theorem one {ch : Choice} {args : XAddArgs} {r : Except RedisError StreamID}
    (hargs : ArgsOf cfg args ev) (htrim : ch.trim = 0)
    (hrun : runCmd ch s (.xAdd args.stream args.maxLen args.values) = some (r, s')) :
    ∃ id, r = .ok id ∧ Enqueued cfg s s' [ev] [id] := by
  obtain ⟨rfl, -, hid, rfl⟩ := runCmd_xAdd hrun
  have hself : (s.setStream args.stream ((s.streams args.stream).xadd ch.id hid args.values
      ch.trim)).streams (streamNameFor cfg ev.service) =
      (s.streams args.stream).xadd ch.id hid args.values ch.trim := by
    rw [← hargs.stream, setStream_self]
  have hentries : ((s.streams args.stream).xadd ch.id hid args.values ch.trim).entries =
      (s.streams args.stream).entries ++ [⟨ch.id, args.values⟩] := by
    rw [htrim]
    rfl
  refine ⟨ch.id, rfl, ?_, ?_, ?_, rfl, ?_⟩
  · intro stream
    by_cases hstream : stream = args.stream
    · subst hstream
      refine ⟨[⟨ch.id, args.values⟩], ?_, ?_⟩
      · rw [setStream_self, hentries]
      · rw [List.filter_cons_of_pos (by simp [hargs.stream])]
        exact .cons hargs.job .nil
    · refine ⟨[], ?_, ?_⟩
      · rw [setStream_ne s _ hstream, List.append_nil]
      · rw [List.filter_cons_of_neg (by simpa [← hargs.stream] using fun h => hstream h.symm)]
        exact .nil
  · intro stream
    by_cases hstream : stream = args.stream
    · subst hstream
      rw [setStream_self, Stream.xadd_groups]
    · rw [setStream_ne s _ hstream]
  · intro stream hne
    refine setStream_ne s _ fun hstream => hne ev (List.mem_singleton_self _) ?_
    rw [hstream, hargs.stream]
  · refine .cons ⟨args.values, ?_, hargs.job⟩ .nil
    rw [hself, hentries]
    exact List.mem_append_right _ (List.mem_singleton_self _)

/-- One event and then others. -/
theorem cons (h : Enqueued cfg s s₁ [ev] [id]) (h' : Enqueued cfg s₁ s' evs ids) :
    Enqueued cfg s s' (ev :: evs) (id :: ids) where
  entries := by
    intro stream
    obtain ⟨added, hadded, hjobs⟩ := h.entries stream
    obtain ⟨added', hadded', hjobs'⟩ := h'.entries stream
    refine ⟨added ++ added', ?_, ?_⟩
    · rw [hadded', hadded, List.append_assoc]
    · rw [← List.singleton_append, List.filter_append]
      exact List.rel_append hjobs hjobs'
  groups := fun stream => (h'.groups stream).trans (h.groups stream)
  other := by
    intro stream hne
    obtain ⟨hhead, hrest⟩ := List.forall_mem_cons.mp hne
    rw [h'.other stream hrest, h.other stream (by simpa using hhead)]
  keys := h'.keys.trans h.keys
  ids := by
    obtain ⟨⟨v, hmem, hjob⟩, -⟩ := List.forall₂_cons.mp h.ids
    obtain ⟨added', hadded', -⟩ := h'.entries (streamNameFor cfg ev.service)
    refine .cons ⟨v, ?_, hjob⟩ h'.ids
    rw [hadded']
    exact List.mem_append_left _ hmem

theorem congr_left {s₀ : Store} (h : Enqueued cfg s₀ s' evs ids)
    (hstreams : s₀.streams = s.streams) (hkeys : s₀.keys = s.keys) :
    Enqueued cfg s s' evs ids := by
  refine ⟨?_, ?_, ?_, ?_, h.ids⟩
  · rw [← hstreams]
    exact h.entries
  · rw [← hstreams]
    exact h.groups
  · rw [← hstreams]
    exact h.other
  · rw [← hkeys]
    exact h.keys

theorem record (h : Enqueued cfg s s' evs ids) (who : Option Nat) (event : Ev) :
    Enqueued cfg s (s'.record who event) evs ids :=
  ⟨h.entries, h.groups, h.other, h.keys, h.ids⟩

end Enqueued

/-- `Enqueue` on the events in order. -/
def enqueueEach (cfg : QueueConfig) (ctx : Ctx) :
    List LogEvent → Program (List (Except String StreamID))
  | [] => return []
  | logEvent :: rest => do
      let result ← enqueue cfg ctx logEvent
      let results ← enqueueEach cfg ctx rest
      return result :: results

/-- Every command is answered, and no XADD evicts anything. -/
def Undisturbed (ch : Nat → Choice) : Prop := ∀ i, (ch i).fail = none ∧ (ch i).trim = 0

section Answered

variable {D : Deployment} {t : Nat} {ch : Nat → Choice} {cfg : QueueConfig} {ctx : Ctx}
  {evs : List LogEvent} {s s' : Store} {i j : Nat}

theorem Undisturbed.not_refused (hch : Undisturbed ch) (hctx : ¬ s.log.CtxDone ctx) (i : Nat) :
    ¬ Refused (ch i) ctx s := by
  rintro (hdone | hlost)
  · exact hctx hdone
  · exact hlost (hch i).1

/-- The pipeline of a batch adds its events. -/
theorem enqueued_execPipeline (hch : Undisturbed ch) (hctx : ¬ s.log.CtxDone ctx)
    {batch : List XAddArgs} (hbatch : List.Forall₂ (ArgsOf cfg) batch evs)
    {replies : List (Except RedisError StreamID)}
    (h : (execPipeline ctx batch).solo (alone D t ch) (s, i) = some (replies, s', j)) :
    ∃ ids, replies.mapM id = .ok ids ∧ Enqueued cfg s s' evs ids := by
  induction hbatch generalizing s i replies with
  | nil =>
      cases h
      exact ⟨[], rfl, .nil rfl rfl⟩
  | cons hargs hrest ih =>
      obtain ⟨r, rs, s₁, rfl, hsolo, hsame, hcases⟩ := execPipeline_cons h
      have hctx₁ : ¬ s₁.log.CtxDone ctx := fun hdone =>
        hch.not_refused hctx i ((hsame (ch i)).mp (Or.inl hdone))
      obtain ⟨ids, hids, hadded⟩ := ih hctx₁ hsolo
      rcases hcases with ⟨href, -⟩ | ⟨-, s₂, hrun, hstreams, hkeys⟩
      · exact absurd href (hch.not_refused hctx i)
      · obtain ⟨new, rfl, hone⟩ := Enqueued.one hargs (hch i).2 hrun
        refine ⟨new :: ids, ?_, hone.cons (hadded.congr_left hstreams hkeys)⟩
        rw [List.mapM_cons, hids]
        rfl

/-- `Enqueue` adds its event. -/
theorem enqueued_enqueue (hch : Undisturbed ch) (hctx : ¬ s.log.CtxDone ctx) {ev : LogEvent}
    (hev : ev.Encodable) {res : Except String StreamID}
    (h : (enqueue cfg ctx ev).solo (alone D t ch) (s, i) = some (res, s', j)) :
    ∃ id, res = .ok id ∧ Enqueued cfg s s' [ev] [id] ∧ ¬ s'.log.CtxDone ctx := by
  obtain ⟨e, ⟨s₁, i₁⟩, hbuild, h⟩ := Prog.solo_bind_eq_some (S := sig) h
  obtain ⟨he, hstill, rfl⟩ := solo_buildJobEnvelope hbuild
  have hctx₁ : ¬ s₁.log.CtxDone ctx := fun hdone => hctx ((hstill.ctx ctx).mp hdone)
  rcases buildXAddArgs_cases he (streamNameFor cfg ev.service) cfg.maxLen with
    ⟨-, args, hargs, hstream, hjob⟩ | ⟨hnot, -⟩
  · simp only [hargs] at h
    obtain ⟨r, x, hans, h⟩ := Prog.solo_call_eq_some (S := sig) h
    obtain ⟨s₂, rfl, ⟨href, -⟩ | ⟨-, hrun⟩⟩ := alone_redis hans
    · exact absurd href (hch.not_refused hctx₁ _)
    · obtain ⟨new, rfl, hone⟩ := Enqueued.one ⟨hstream, hjob⟩ (hch _).2 hrun
      cases h
      refine ⟨new, rfl, ?_, ?_⟩
      · exact (hone.record _ _).congr_left hstill.streams hstill.keys
      · exact fun hdone => hctx₁ ((ctxDone_record_cmd (runCmd_frame hrun).log).mp hdone)
  · exact absurd hev hnot

/-- So does a sequence of calls. -/
theorem enqueued_enqueueEach (hch : Undisturbed ch) (hctx : ¬ s.log.CtxDone ctx)
    (hall : ∀ ev ∈ evs, ev.Encodable) {results : List (Except String StreamID)}
    (h : (enqueueEach cfg ctx evs).solo (alone D t ch) (s, i) = some (results, s', j)) :
    ∃ ids, Enqueued cfg s s' evs ids := by
  induction evs generalizing s i results with
  | nil =>
      cases h
      exact ⟨[], .nil rfl rfl⟩
  | cons ev rest ih =>
      obtain ⟨hev, hrest⟩ := List.forall_mem_cons.mp hall
      obtain ⟨res, ⟨s₁, i₁⟩, hone, h⟩ := Prog.solo_bind_eq_some (S := sig) h
      obtain ⟨id, -, hadded, hctx₁⟩ := enqueued_enqueue hch hctx hev hone
      obtain ⟨results', ⟨s₂, i₂⟩, hsolo, hret⟩ := Prog.solo_bind_eq_some (S := sig) h
      cases hret
      obtain ⟨ids, hadded'⟩ := ih hctx₁ hrest hsolo
      exact ⟨id :: ids, hadded.cons hadded'⟩

end Answered

-- ============================================================================
-- Agreement with Enqueue
-- ============================================================================

/-- The entries hold the same job, up to the job id and the time of the call. -/
def SameJob (x y : Entry Values) : Prop :=
  ∃ e e', x.values.job = some e ∧ y.values.job = some e' ∧
    e' = { e with jobID := e'.jobID, enqueuedAt := e'.enqueuedAt }

theorem sameJob_of_jobOf {cfg : QueueConfig} {ev : LogEvent} {x y : Entry Values}
    (hx : JobOf cfg ev x.values) (hy : JobOf cfg ev y.values) : SameJob x y := by
  obtain ⟨e, hparse, he⟩ := hx
  obtain ⟨e', hparse', he'⟩ := hy
  refine ⟨e, e', hparse, hparse', ?_⟩
  obtain ⟨jobID, data, enqueuedAt, retryCount, maxRetries, eventType, lastError⟩ := e'
  simp only [JobEnvelope.mk.injEq, true_and]
  exact ⟨he'.data.trans he.data.symm, he'.retryCount.trans he.retryCount.symm,
    he'.maxRetries.trans he.maxRetries.symm, he'.eventType.trans he.eventType.symm,
    he'.lastError.trans he.lastError.symm⟩

theorem forall₂_sameJob {cfg : QueueConfig} {evs : List LogEvent} {xs ys : List (Entry Values)}
    (hx : List.Forall₂ (fun (x : Entry Values) ev => JobOf cfg ev x.values) xs evs)
    (hy : List.Forall₂ (fun (y : Entry Values) ev => JobOf cfg ev y.values) ys evs) :
    List.Forall₂ SameJob xs ys := by
  induction hx generalizing ys with
  | nil =>
      cases hy
      exact .nil
  | cons hhead _ ih =>
      cases hy with
      | cons hhead' hrest' => exact .cons (sameJob_of_jobOf hhead hhead') (ih hrest')

/-- The batch, which ended in `s₁` with the result `res`, agrees with the calls of
    `Enqueue`, which ended in `s₂`. -/
structure BatchAgrees (cfg : QueueConfig) (evs : List LogEvent) (s s₁ s₂ : Store)
    (res : Except String (List StreamID)) : Prop where
  /-- The same jobs are appended to every stream, in the same order. -/
  same : ∀ stream, ∃ added added',
    (s₁.streams stream).entries = (s.streams stream).entries ++ added ∧
    (s₂.streams stream).entries = (s.streams stream).entries ++ added' ∧
    List.Forall₂ SameJob added added'
  /-- The streams of other events, the groups and the plain keys are as they were. -/
  other : ∀ stream, (∀ ev ∈ evs, streamNameFor cfg ev.service ≠ stream) →
    s₁.streams stream = s.streams stream
  groups : ∀ stream, (s₁.streams stream).groups = (s.streams stream).groups
  keys : s₁.keys = s.keys
  /-- The `i`-th id is that of the entry with the `i`-th event. -/
  ids : ∃ ids, res = .ok ids ∧ ids.length = evs.length ∧
    ∀ (i : Nat) ev id, evs[i]? = some ev → ids[i]? = some id →
      ∃ v e, ⟨id, v⟩ ∈ (s₁.streams (streamNameFor cfg ev.service)).entries ∧
        v.job = some e ∧ e.data = some ev

theorem batchAgrees_of_enqueued {cfg : QueueConfig} {evs : List LogEvent} {s s₁ s₂ : Store}
    {ids ids' : List StreamID} (h₁ : Enqueued cfg s s₁ evs ids) (h₂ : Enqueued cfg s s₂ evs ids') :
    BatchAgrees cfg evs s s₁ s₂ (.ok ids) where
  same := by
    intro stream
    obtain ⟨added, hadded, hjobs⟩ := h₁.entries stream
    obtain ⟨added', hadded', hjobs'⟩ := h₂.entries stream
    exact ⟨added, added', hadded, hadded', forall₂_sameJob hjobs hjobs'⟩
  other := h₁.other
  groups := h₁.groups
  keys := h₁.keys
  ids := by
    refine ⟨ids, rfl, h₁.ids.length_eq, ?_⟩
    intro i ev id hev hid
    obtain ⟨hi, rfl⟩ := List.getElem?_eq_some_iff.mp hev
    obtain ⟨hi', rfl⟩ := List.getElem?_eq_some_iff.mp hid
    obtain ⟨v, hmem, e, hparse, he⟩ := h₁.ids.get hi' hi
    exact ⟨v, e, hmem, hparse, he.data⟩

/-- Every command is answered, with ever larger ids. -/
def answering : Nat → Choice := fun i => { id := .of (i + 1) 0 }

theorem undisturbed_answering : Undisturbed answering := fun _ => ⟨rfl, rfl⟩

/-- Three events, of which the first and the last are of one service. -/
def threeEvents : List LogEvent :=
  [{ LogEvent.zero with service := "a", message := "first" },
    { LogEvent.zero with service := "b", message := "second" },
    { LogEvent.zero with service := "a", message := "third" }]

/-- The second of two events cannot be marshalled. -/
def badSecond : List LogEvent :=
  [.zero, { LogEvent.zero with metadata := .unencodable "json: unsupported type: chan int" }]

end LogPipeline.Cluster
