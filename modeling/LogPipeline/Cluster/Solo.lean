/-
  LogPipeline.Cluster.Solo

  One program of the deployment running alone, the environment's choice for its
  `i`-th call being `ch i`.  Which commands fail is part of the choices, so a
  statement for every `ch` covers every pattern of failures.

  - `alone_redis`: what a command does.
  - `appended_xAdd`: the entry an XADD adds is there afterwards, however much the
    server trims.
-/

import LogPipeline.Cluster.Jobs
import LogPipeline.Queue.Names

namespace LogPipeline.Cluster

open Conc Go Redis Queue

/-- The answers to a program that runs alone. -/
def alone (D : Deployment) (t : Nat) (ch : Nat → Choice) (o : sig.Op) (x : Store × Nat) :
    Option (sig.Res o × Store × Nat) :=
  Prog.counted (S := sig) (fun i => exec D t (ch i)) o x

variable {D : Deployment} {t : Nat} {ch : Nat → Choice}

theorem alone_eq_some {o : Op} {s s' : Store} {i j : Nat} {r : o.Res} :
    alone D t ch o (s, i) = some (r, s', j) ↔ exec D t (ch i) o s = some (r, s') ∧ j = i + 1 :=
  Prog.counted_eq_some (S := sig)

/-- The command is refused: its context is done, or it is lost. -/
def Refused (ch : Choice) (ctx : Ctx) (s : Store) : Prop := s.log.CtxDone ctx ∨ ch.fail ≠ none

/-- A command is refused and changes nothing, or it is executed. -/
theorem answer_refused_or {ch : Choice} {ctx : Ctx} {c : Cmd} {s s' : Store}
    {r : Except RedisError c.Reply} (h : answer ch ctx c s = some (r, s')) :
    (Refused ch ctx s ∧ (∃ err, r = .error err) ∧ s' = s) ∨
    (¬ Refused ch ctx s ∧ runCmd ch s c = some (r, s')) := by
  rcases answer_cases h with ⟨hdone, rfl, rfl⟩ | ⟨-, msg, hmsg, rfl, rfl⟩ | ⟨hctx, hfail, hrun⟩
  · exact Or.inl ⟨Or.inl hdone, ⟨_, rfl⟩, rfl⟩
  · refine Or.inl ⟨Or.inr ?_, ⟨_, rfl⟩, rfl⟩
    rw [hmsg]
    exact Option.some_ne_none msg
  · refine Or.inr ⟨?_, hrun⟩
    rintro (hdone | hlost)
    · exact hctx hdone
    · exact hlost hfail

/-- A command of a program that runs alone. -/
theorem alone_redis {ctx : Ctx} {c : Cmd} {s : Store} {i : Nat} {r : Except RedisError c.Reply}
    {x : Store × Nat} (h : alone D t ch (.redis ctx c) (s, i) = some (r, x)) :
    ∃ s₁, x = (s₁.record (some t) (.cmd ctx c r s.now), i + 1) ∧
      ((Refused (ch i) ctx s ∧ (∃ err, r = .error err) ∧ s₁ = s) ∨
       (¬ Refused (ch i) ctx s ∧ runCmd (ch i) s c = some (r, s₁))) := by
  obtain ⟨s', j⟩ := x
  obtain ⟨hexec, rfl⟩ := alone_eq_some.mp h
  obtain ⟨s₁, hans, rfl⟩ := exec_redis hexec
  exact ⟨s₁, rfl, answer_refused_or hans⟩

theorem alone_now {s : Store} {i : Nat} {now : Instant} {x : Store × Nat}
    (h : alone D t ch .now (s, i) = some (now, x)) : x = (s, i + 1) := by
  cases h
  rfl

/-- Only a cancellation ends a context. -/
theorem cancelled_record {s s₁ : Store} (hlog : s₁.log = s.log) {who : Option Nat} {ev : Ev}
    {run : Nat} (hev : ev ≠ .cancelled run) :
    (s₁.record who ev).log.Cancelled run ↔ s.log.Cancelled run := by
  unfold Log.Cancelled
  simp only [Store.record, hlog, List.exists_mem_cons_iff]
  exact or_iff_right hev

theorem ctxDone_record_cmd {s s₁ : Store} (hlog : s₁.log = s.log) {who : Option Nat}
    {ctx ctx' : Ctx} {c : Cmd} {r : Except RedisError c.Reply} {now : Nat} :
    (s₁.record who (.cmd ctx c r now)).log.CtxDone ctx' ↔ s.log.CtxDone ctx' := by
  cases ctx' with
  | background => rfl
  | worker run => exact cancelled_record hlog Ev.noConfusion

theorem refused_record_cmd {s s₁ : Store} {ch : Choice} {ctx ctx' : Ctx} {cmd : Cmd}
    {r : Except RedisError cmd.Reply} {who : Option Nat} {now : Nat} (hlog : s₁.log = s.log) :
    Refused ch ctx (s₁.record who (.cmd ctx' cmd r now)) ↔ Refused ch ctx s := by
  unfold Refused
  rw [ctxDone_record_cmd hlog]

/-- No program cancels a context. -/
theorem exec_cancelled {ch : Choice} {o : Op} {s s' : Store} {r : o.Res}
    (h : exec D t ch o s = some (r, s')) (run : Nat) :
    s'.log.Cancelled run ↔ s.log.Cancelled run := by
  cases o with
  | redis ctx c =>
      obtain ⟨s₁, hans, rfl⟩ := exec_redis h
      exact cancelled_record (answer_frame hans).log Ev.noConfusion
  | semAcquire run' =>
      simp only [exec] at h
      split at h
      · cases h
        rfl
      · split at h
        · cases h
          rfl
        · cases h
  | uuid =>
      cases h
      exact cancelled_record rfl Ev.noConfusion
  | invoke e =>
      cases h
      exact cancelled_record rfl Ev.noConfusion
  | await e =>
      cases h
      exact cancelled_record rfl Ev.noConfusion
  | note n =>
      cases h
      exact cancelled_record rfl Ev.noConfusion
  | jobEnd run' =>
      cases h
      exact cancelled_record rfl Ev.noConfusion
  | now =>
      cases h
      rfl
  | ctxDone run' =>
      cases h
      rfl
  | timerOrDone run' =>
      cases h
      rfl
  | goProcess run' e id =>
      cases h
      rfl
  | jobBegin run' =>
      cases h
      rfl
  | jobDone run' =>
      cases h
      rfl

-- ============================================================================
-- What is appended
-- ============================================================================

/-- The stream has an entry that was not in `s`, and its fields satisfy `φ`. -/
def Appended (φ : Values → Prop) (s s' : Store) (stream : String) : Prop :=
  ∃ e ∈ (s'.streams stream).entries, (s.streams stream).lastID < e.id ∧ φ e.values

theorem TrimOk.le_stored {maxLen : Int64} {stored trim : Nat} (h : TrimOk maxLen stored trim) :
    trim ≤ stored := by
  rcases h with rfl | ⟨hpos, hle⟩
  · exact Nat.zero_le stored
  · have hmax : 0 < maxLen.toInt := Int64.lt_iff_toInt_lt.mp hpos
    omega

theorem mem_xadd_self {V : Type} {x : Stream V} {id : StreamID} (hid : x.lastID < id) (v : V)
    {trim : Nat} (htrim : trim ≤ x.xlen) : ⟨id, v⟩ ∈ (x.xadd id hid v trim).entries := by
  change _ ∈ (x.entries ++ [_]).drop trim
  rw [List.drop_append_of_le_length htrim]
  exact List.mem_append_right _ (List.mem_singleton_self _)

theorem appended_xAdd {ch : Choice} {s s' : Store} {stream : String} {maxLen : Int64} {v : Values}
    {r : Except RedisError StreamID} {φ : Values → Prop}
    (h : runCmd ch s (.xAdd stream maxLen v) = some (r, s')) (hφ : φ v) :
    Appended φ s s' stream := by
  obtain ⟨-, htrim, hid, rfl⟩ := runCmd_xAdd h
  refine ⟨⟨ch.id, v⟩, ?_, hid, hφ⟩
  change _ ∈ (Function.update s.streams stream _ stream).entries
  rw [Function.update_self]
  exact mem_xadd_self hid v htrim.le_stored

/-- Nothing is appended to streams that did not change. -/
theorem not_appended_of_entries {φ : Values → Prop} {s s' : Store} {stream : String}
    (h : (s'.streams stream).entries = (s.streams stream).entries) :
    ¬ Appended φ s s' stream := by
  rintro ⟨e, he, hid, -⟩
  rw [h] at he
  exact absurd ((s.streams stream).le_last e he) (not_le.mpr hid)

/-- A stream with one entry, which every group has been given and holds as pending. -/
def heldStream (id : StreamID) (hpos : StreamID.zero < id) (v : Values) : Stream Values where
  entries := [⟨id, v⟩]
  lastID := id
  groups := fun _ => some {
    lastDelivered := id
    pel := [⟨id, "worker", 0⟩]
    sorted := List.pairwise_singleton _ _
    pos := fun p hp => List.mem_singleton.mp hp ▸ hpos
    le_last := fun p hp => List.mem_singleton.mp hp ▸ le_refl id }
  sorted := List.pairwise_singleton _ _
  pos := fun e he => List.mem_singleton.mp he ▸ hpos
  le_last := fun e he => List.mem_singleton.mp he ▸ le_refl id
  delivered_le := fun n g hg => by
    cases hg
    exact le_refl id

theorem isPending_heldStream {id : StreamID} {hpos : StreamID.zero < id} {v : Values}
    (n : String) : (heldStream id hpos v).IsPending n id :=
  ⟨_, rfl, _, List.mem_singleton_self _, rfl⟩

theorem zero_lt_first : StreamID.zero < .of 1 0 := by decide

/-- The consumer of a worker, and a server on which one message of its stream is
    pending. -/
def someConsumer : Consumer := ((Deployment.ofDefaults true).worker 0).consumer

@[inherit_doc someConsumer]
def oneHeld (v : Values) : Store :=
  Store.init.setStream someConsumer.streamName (heldStream (.of 1 0) zero_lt_first v)

theorem oneHeld_stream (v : Values) : (oneHeld v).streams someConsumer.streamName =
    heldStream (.of 1 0) zero_lt_first v := by
  simp only [oneHeld, Store.setStream, Function.update_self]

/-- The fields of an entry that holds the zero envelope can be read. -/
theorem exists_zeroJob : ∃ text, envelopeStruct.marshal .zero = .ok text ∧
    Consumer.parseJob (jobValues text) = .ok .zero := by
  have hmarshal : ∃ text, envelopeStruct.marshal .zero = .ok text ∧
    text.depth ≤ maxNestingDepth := ⟨_, rfl, by decide +kernel⟩
  obtain ⟨text, htext, hdepth⟩ := hmarshal
  exact ⟨text, htext, parseJob_jobValues htext hdepth⟩

-- ============================================================================
-- Calls as trees
-- ============================================================================

/-- `Send` makes one call and returns what it is answered. -/
theorem send_eq {d : DLQ} {ctx : Ctx} {entry : DLQEntry} {text : Text}
    (ht : dlqEntryStruct.marshal entry = .ok text) :
    ∃ k, d.send ctx entry = Prog.call (S := sig)
        (Op.redis ctx (.xAdd d.streamName d.maxLen (entryValues text))) k ∧
      (∀ id, k (.ok id) = .ret (.ok id)) ∧
      ∀ err, k (.error err) = .ret (.error ("failed to add to DLQ: " ++ RedisError.text err)) := by
  unfold DLQ.send
  rw [ht]
  exact ⟨_, rfl, fun _ => rfl, fun _ => rfl⟩

-- ============================================================================
-- The calls of the operations
-- ============================================================================

theorem uses_discard {α : Type} {φ : Op → Prop} {p : Program α} (hp : p.Uses φ) :
    Prog.Uses (S := sig) φ (p.bind fun _ => .ret ()) :=
  hp.bind fun _ => trivial

theorem uses_ite {α : Type} {φ : Op → Prop} {P : Prop} [Decidable P] {p q : Program α}
    (hp : p.Uses φ) (hq : q.Uses φ) : Prog.Uses (S := sig) φ (if P then p else q) := by
  split
  · exact hp
  · exact hq

theorem uses_get {φ : Op → Prop} {d : DLQ} {ctx : Ctx} {id : StreamID}
    (h : φ (.redis ctx (.xRange d.streamName id id))) : (d.get ctx id).Uses φ := by
  refine ⟨h, fun reply => ?_⟩
  match reply with
  | .error err => trivial
  | .ok [] => trivial
  | .ok (msg :: rest) => trivial

theorem uses_delete {φ : Op → Prop} {d : DLQ} {ctx : Ctx} {id : StreamID}
    (h : φ (.redis ctx (.xDel d.streamName id))) : (d.delete ctx id).Uses φ := by
  refine ⟨h, fun reply => ?_⟩
  cases reply with
  | error err => trivial
  | ok n =>
      exact uses_ite trivial trivial

theorem uses_requeue {φ : Op → Prop} {d : DLQ} {ctx : Ctx} {id : StreamID} {stream : String}
    {maxLen : Int64} (hget : φ (.redis ctx (.xRange d.streamName id id)))
    (hadd : ∀ v, φ (.redis ctx (.xAdd stream maxLen v)))
    (hdel : φ (.redis ctx (.xDel d.streamName id))) :
    (d.requeue ctx id stream maxLen).Uses φ := by
  refine (uses_get hget).bind fun res => ?_
  cases res with
  | error err => trivial
  | ok entry =>
      cases hjob : entry.jobData with
      | none =>
          simp only [hjob]
          trivial
      | some job =>
          simp only [hjob]
          cases hargs : buildXAddArgs stream maxLen (DLQ.resetForRequeue job) with
          | error err => trivial
          | ok args =>
              obtain ⟨text, -, rfl⟩ := buildXAddArgs_ok hargs
              refine ⟨hadd _, fun reply => ?_⟩
              cases reply with
              | error err => trivial
              | ok new => exact (uses_delete hdel).bind fun _ => trivial

theorem uses_ack {φ : Op → Prop} {c : Consumer} {ctx : Ctx} {id : StreamID}
    (h : φ (.redis ctx (.xAck c.streamName c.consumerGroup id))) : (c.ack ctx id).Uses φ := by
  refine ⟨h, fun reply => ?_⟩
  cases reply with
  | error err => trivial
  | ok n => trivial

theorem uses_retry {φ : Op → Prop} {c : Consumer} {ctx : Ctx} {e : JobEnvelope} {id : StreamID}
    {err : String} (hnow : φ .now)
    (hadd : ∀ stream maxLen v, φ (.redis ctx (.xAdd stream maxLen v)))
    (hack : φ (.redis ctx (.xAck c.streamName c.consumerGroup id))) :
    (c.retry ctx e id err).Uses φ := by
  unfold Consumer.retry
  dsimp only
  split
  · refine Prog.Uses.bind ?_ fun _ => uses_ack hack
    unfold Consumer.giveUp
    cases c.dlq with
    | none => trivial
    | some dlq =>
        exact ⟨hnow, fun _ => (uses_send fun v => hadd _ _ v).bind fun _ => trivial⟩
  · cases hargs : buildXAddArgs c.streamName 0 (Consumer.failedOnce e err) with
    | error err => trivial
    | ok args =>
        obtain ⟨text, -, rfl⟩ := buildXAddArgs_ok hargs
        refine ⟨hadd _ _ _, fun reply => ?_⟩
        cases reply with
        | error err => trivial
        | ok new => exact uses_ack hack

end LogPipeline.Cluster
