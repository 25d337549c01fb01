/-
  LogPipeline.Cluster.Retry

  `Consumer.Retry` on a server whose commands may fail, in a process that may die
  between two of them.

  `Retry` first puts the job somewhere else (a copy in the stream, or an entry in
  the dead letter queue) and then acknowledges the message, so a process that
  dies in between leaves the message pending.  A copy that could not be marshalled
  or added ends `Retry`; a dead letter entry that could not be marshalled or added
  does not, and the acknowledgement that follows drops the job.

  - `retry_keeps_iff`: that is the only way to lose a job, and the only way for
    `Retry` to return nil without having put it where it belongs.
-/

import LogPipeline.Cluster.Solo
import LogPipeline.Cluster.Programs

namespace LogPipeline.Cluster

open Conc Go Redis Queue

-- ============================================================================
-- What must hold afterwards
-- ============================================================================

/-- The failed attempt was the last one. -/
def LastAttempt (e : JobEnvelope) : Prop := e.retryCount + 1 ≥ e.maxRetries

instance (e : JobEnvelope) : Decidable (LastAttempt e) := inferInstanceAs (Decidable (_ ≥ _))

/-- A copy of the job with one more attempt was appended to the consumer's stream. -/
def Copied (c : Consumer) (e : JobEnvelope) (err : String) (s s' : Store) : Prop :=
  Appended (fun v => v.job = some (Consumer.failedOnce e err)) s s' c.streamName

/-- An entry with the job was appended to the dead letter queue. -/
def Buried (d : DLQ) (e : JobEnvelope) (err : String) (s s' : Store) : Prop :=
  Appended (fun v => ∃ entry, v.letter = some entry ∧
    entry.jobData = some (Consumer.failedOnce e err)) s s' d.streamName

/-- The message is in the pending list of the consumer's group. -/
def StillPending (c : Consumer) (id : StreamID) (s : Store) : Prop :=
  (s.streams c.streamName).IsPending c.consumerGroup id

/-- The job is not lost between `s` and `s'`, and if what is left of `Retry` is its
    nil result, the message is done and the job is in the one place it belongs. -/
structure RetryKeeps (c : Consumer) (d : DLQ) (e : JobEnvelope) (id : StreamID) (err : String)
    (s s' : Store) (rest : Program (Except String Unit)) : Prop where
  somewhere : StillPending c id s' ∨ Copied c e err s s' ∨ Buried d e err s s'
  returned : rest = .ret (.ok ()) → ¬ StillPending c id s' ∧
    (Copied c e err s s' ∨ Buried d e err s s') ∧ ¬ (Copied c e err s s' ∧ Buried d e err s s') ∧
    (Buried d e err s s' ↔ LastAttempt e)

-- ============================================================================
-- The calls of Retry
-- ============================================================================

/-- The result of `Ack`. -/
def ackResult : Except RedisError Nat → Except String Unit
  | .error err => .error ("failed to ack: " ++ err.text)
  | .ok _ => .ok ()

theorem ack_eq (c : Consumer) (ctx : Ctx) (id : StreamID) :
    c.ack ctx id = .call (.redis ctx (.xAck c.streamName c.consumerGroup id))
      fun r => .ret (ackResult r) := by
  refine congrArg (Prog.call (S := sig) _) (funext fun r => ?_)
  cases r with
  | error err => rfl
  | ok n => rfl

/-- The last attempt: the clock, the dead letter entry, the acknowledgement. -/
theorem retry_eq_last {c : Consumer} {d : DLQ} (hd : c.dlq = some d) (ctx : Ctx)
    {e : JobEnvelope} (id : StreamID) (err : String) (he : e.Encodable) (hlast : LastAttempt e) :
    ∃ text : Instant → Text,
      (∀ now, ∃ entry, (entryValues (text now)).letter = some entry ∧
        entry.jobData = some (Consumer.failedOnce e err)) ∧
      c.retry ctx e id err = .call .now fun now =>
        .call (.redis ctx (.xAdd d.streamName d.maxLen (entryValues (text now)))) fun _ =>
          c.ack ctx id := by
  have hmarshal := fun now => marshal_deadLetter (d := ⟨0, e, id⟩) he err now
  choose text htext using hmarshal
  refine ⟨text, fun now => ⟨_, letter_entryValues (htext now), rfl⟩, ?_⟩
  unfold Consumer.retry
  have hif : (Consumer.failedOnce e err).retryCount ≥ (Consumer.failedOnce e err).maxRetries :=
    hlast
  rw [if_pos hif]
  unfold Consumer.giveUp
  rw [hd]
  refine congrArg (Prog.call (S := sig) _) (funext fun now => ?_)
  obtain ⟨k, hk, hok, herr⟩ := send_eq (d := d) (htext now)
  change Prog.bind (Prog.bind (d.send ctx (Delivery.deadLetter ⟨0, e, id⟩ err now)) _) _ = _
  rw [hk]
  refine congrArg (Prog.call (S := sig) _) (funext fun r => ?_)
  have hret : ∃ a, k r = .ret a := by
    cases r with
    | error err => exact ⟨_, herr err⟩
    | ok new => exact ⟨_, hok new⟩
  obtain ⟨a, ha⟩ := hret
  change Prog.bind (Prog.bind (k r) _) _ = _
  rw [ha]
  rfl

/-- An earlier attempt: the copy, and the acknowledgement if it was added. -/
theorem retry_eq_copy (c : Consumer) (ctx : Ctx) {e : JobEnvelope} (id : StreamID) (err : String)
    (he : e.Encodable) (hlast : ¬ LastAttempt e) :
    ∃ text k, (jobValues text).job = some (Consumer.failedOnce e err) ∧
      c.retry ctx e id err = .call (.redis ctx (.xAdd c.streamName 0 (jobValues text))) k ∧
      (∀ new, k (.ok new) = c.ack ctx id) ∧
      ∀ err, ∃ msg, k (.error err) = .ret (.error msg) := by
  obtain ⟨text, htext⟩ := marshal_failed (d := ⟨0, e, id⟩) he err
  have htext' : envelopeStruct.marshal (Consumer.failedOnce e err) = .ok text := htext
  have hargs : buildXAddArgs c.streamName 0 (Consumer.failedOnce e err) =
      .ok ⟨c.streamName, 0, jobValues text⟩ := by
    unfold buildXAddArgs
    rw [htext']
    rfl
  have hif : ¬ (Consumer.failedOnce e err).retryCount ≥ (Consumer.failedOnce e err).maxRetries :=
    hlast
  unfold Consumer.retry
  rw [if_neg hif, hargs]
  exact ⟨text, _, job_jobValues htext', rfl, fun _ => rfl, fun _ => ⟨_, rfl⟩⟩

/-- The last attempt of a job that cannot be marshalled: the clock and the acknowledgement. -/
theorem retry_eq_unsent {c : Consumer} {d : DLQ} (hd : c.dlq = some d) (ctx : Ctx)
    {e : JobEnvelope} (id : StreamID) (err : String) (he : ¬ e.Encodable)
    (hlast : LastAttempt e) :
    c.retry ctx e id err = .call .now fun _ => c.ack ctx id := by
  have hmarshal : ∀ now, ∃ msg, dlqEntryStruct.marshal
      (Delivery.deadLetter ⟨0, e, id⟩ err now) = .error msg := by
    intro now
    cases ht : dlqEntryStruct.marshal (Delivery.deadLetter ⟨0, e, id⟩ err now) with
    | error msg => exact ⟨msg, rfl⟩
    | ok text => exact absurd (DLQEntry.marshal_ok_iff.mp ⟨text, ht⟩ _ rfl) he
  have hif : (Consumer.failedOnce e err).retryCount ≥ (Consumer.failedOnce e err).maxRetries :=
    hlast
  unfold Consumer.retry
  rw [if_pos hif]
  unfold Consumer.giveUp
  rw [hd]
  refine congrArg (Prog.call (S := sig) _) (funext fun now => ?_)
  obtain ⟨msg, hmsg⟩ := hmarshal now
  change Prog.bind (Prog.bind (d.send ctx (Delivery.deadLetter ⟨0, e, id⟩ err now)) _) _ = _
  unfold DLQ.send
  rw [hmsg]
  rfl

/-- An earlier attempt of a job that cannot be marshalled: nothing. -/
theorem retry_eq_uncopied (c : Consumer) (ctx : Ctx) {e : JobEnvelope} (id : StreamID)
    (err : String) (he : ¬ e.Encodable) (hlast : ¬ LastAttempt e) :
    ∃ msg, c.retry ctx e id err = .ret (.error msg) := by
  have hif : ¬ (Consumer.failedOnce e err).retryCount ≥ (Consumer.failedOnce e err).maxRetries :=
    hlast
  unfold Consumer.retry
  rw [if_neg hif]
  unfold buildXAddArgs
  cases ht : envelopeStruct.marshal (Consumer.failedOnce e err) with
  | error msg => exact ⟨_, rfl⟩
  | ok text => exact absurd (JobEnvelope.marshal_ok_iff.mp ⟨text, ht⟩) he

-- ============================================================================
-- What the commands leave behind
-- ============================================================================

theorem stillPending_xAdd {ch : Choice} {s s' : Store} {stream : String} {maxLen : Int64}
    {v : Values} {r : Except RedisError StreamID}
    (h : runCmd ch s (.xAdd stream maxLen v) = some (r, s')) (c : Consumer) (id : StreamID) :
    StillPending c id s' ↔ StillPending c id s := by
  obtain ⟨-, -, hid, rfl⟩ := runCmd_xAdd h
  have hgroups : ((s.setStream stream ((s.streams stream).xadd ch.id hid v ch.trim)).streams
      c.streamName).groups = (s.streams c.streamName).groups := by
    by_cases hs : c.streamName = stream
    · change (Function.update s.streams stream _ c.streamName).groups = _
      rw [hs, Function.update_self, Stream.xadd_groups]
    · change (Function.update s.streams stream _ c.streamName).groups = _
      rw [Function.update_of_ne hs]
  unfold StillPending Stream.IsPending
  rw [hgroups]

theorem not_stillPending_xAck {ch : Choice} {s s' : Store} {c : Consumer} {id : StreamID}
    {r : Except RedisError Nat}
    (h : runCmd ch s (.xAck c.streamName c.consumerGroup id) = some (r, s')) :
    ¬ StillPending c id s' := by
  cases h
  rintro ⟨g, hg, p, hp, rfl⟩
  simp only [Store.setStream, Function.update_self, Stream.xack_groups, if_true,
    Option.map_eq_some_iff] at hg
  obtain ⟨g', -, rfl⟩ := hg
  have hne := List.of_mem_filter hp
  simp at hne

theorem entries_xAck {ch : Choice} {s s' : Store} {stream group : String} {id : StreamID}
    {r : Except RedisError Nat} (h : runCmd ch s (.xAck stream group id) = some (r, s'))
    (stream' : String) :
    (s'.streams stream').entries = (s.streams stream').entries := by
  cases h
  by_cases hs : stream' = stream
  · rw [hs]
    simp only [Store.setStream, Function.update_self, Stream.xack_entries]
  · simp only [Store.setStream, Function.update_of_ne hs]

theorem ok_of_xAck {ch : Choice} {s s' : Store} {stream group : String} {id : StreamID}
    {r : Except RedisError Nat} (h : runCmd ch s (.xAck stream group id) = some (r, s')) :
    ∃ n, r = .ok n := by
  cases h
  exact ⟨_, rfl⟩

theorem Appended.congr {φ : Values → Prop} {s s₁ s₂ : Store} {stream : String}
    (h : (s₂.streams stream).entries = (s₁.streams stream).entries) :
    Appended φ s s₂ stream ↔ Appended φ s s₁ stream := by
  unfold Appended
  rw [h]

/-- The only thing an XADD appends is its entry. -/
theorem Appended.of_xAdd {φ : Values → Prop} {ch : Choice} {s s' : Store} {stream : String}
    {maxLen : Int64} {v : Values} {r : Except RedisError StreamID}
    (h : runCmd ch s (.xAdd stream maxLen v) = some (r, s')) {stream' : String}
    (happ : Appended φ s s' stream') : φ v := by
  obtain ⟨-, -, hid, rfl⟩ := runCmd_xAdd h
  obtain ⟨e, he, hlt, hφ⟩ := happ
  by_cases hs : stream' = stream
  · subst hs
    simp only [Store.setStream, Function.update_self] at he
    rcases Stream.mem_xadd_entries he with he | rfl
    · exact absurd ((s.streams stream').le_last e he) (not_le.mpr hlt)
    · exact hφ
  · simp only [Store.setStream, Function.update_of_ne hs] at he
    exact absurd ((s.streams stream').le_last e he) (not_le.mpr hlt)

-- ============================================================================
-- The acknowledgement
-- ============================================================================

section Ack

variable {D : Deployment} {t : Nat} {ch : Nat → Choice} {c : Consumer} {d : DLQ}
  {e : JobEnvelope} {id : StreamID} {err : String} {ctx : Ctx}

/-- While the message is pending nothing is lost, unless `Retry` has returned nil. -/
theorem RetryKeeps.of_pending {s s' : Store} {rest : Program (Except String Unit)}
    (hpend : StillPending c id s') (hrest : rest ≠ .ret (.ok ())) :
    RetryKeeps c d e id err s s' rest :=
  ⟨Or.inl hpend, fun h => absurd h hrest⟩

/-- The acknowledgement, after `m` more calls: it was executed, or the message is as
    it was and `Retry` has not returned nil. -/
theorem ack_outcome {s s' : Store} {i j m : Nat} {rest : Program (Except String Unit)}
    (h : Prog.soloFor (alone D t ch) m (c.ack ctx id) (s, i) = some (rest, s', j)) :
    (s'.streams = s.streams ∧ rest ≠ .ret (.ok ()) ∧ (m = 0 ∨ Refused (ch i) ctx s)) ∨
    (¬ StillPending c id s' ∧ rest = .ret (.ok ()) ∧
      (∀ stream, (s'.streams stream).entries = (s.streams stream).entries) ∧
      0 < m ∧ ¬ Refused (ch i) ctx s) := by
  rw [ack_eq] at h
  cases m with
  | zero =>
      cases h
      refine Or.inl ⟨rfl, ?_, Or.inl rfl⟩
      intro hret
      cases hret
  | succ m =>
      obtain ⟨r, x, hans, hrest⟩ := Prog.soloFor_succ (S := sig) h
      rw [Prog.soloFor_ret] at hrest
      cases hrest
      obtain ⟨s₁, heq, ⟨href, ⟨rerr, rfl⟩, rfl⟩ | ⟨hsent, hrun⟩⟩ := alone_redis hans
      · cases heq
        refine Or.inl ⟨rfl, fun hret => ?_, Or.inr href⟩
        injection hret with hret
        cases hret
      · cases heq
        obtain ⟨n, rfl⟩ := ok_of_xAck hrun
        have hentries := entries_xAck hrun
        have hacked := not_stillPending_xAck hrun
        exact Or.inr ⟨hacked, rfl, hentries, Nat.succ_pos m, hsent⟩

end Ack

-- ============================================================================
-- Losing a job
-- ============================================================================

section Retry

variable {D : Deployment} {t : Nat} {ch : Nat → Choice} {c : Consumer} {d : DLQ}
  {e : JobEnvelope} {id : StreamID} {err : String} {ctx : Ctx} {s s' : Store} {n i : Nat}
  {rest : Program (Except String Unit)}

/-- On the last attempt the dead letter entry is not added, and the process lives to send an
    acknowledgement that arrives.  The entry is the second of three calls; if it cannot be
    marshalled, there are only the other two. -/
def DropsJob (ctx : Ctx) (e : JobEnvelope) (s : Store) (ch : Nat → Choice) (n : Nat) : Prop :=
  LastAttempt e ∧ ¬ s.log.CtxDone ctx ∧
    ((e.Encodable ∧ 3 ≤ n ∧ (ch 1).fail ≠ none ∧ (ch 2).fail = none) ∨
      (¬ e.Encodable ∧ 2 ≤ n ∧ (ch 1).fail = none))

theorem dropsJob_iff_of_encodable (he : e.Encodable) : DropsJob ctx e s ch n ↔
    LastAttempt e ∧ ¬ s.log.CtxDone ctx ∧ 3 ≤ n ∧ (ch 1).fail ≠ none ∧ (ch 2).fail = none := by
  simp [DropsJob, he]

theorem dropsJob_iff_of_not_encodable (he : ¬ e.Encodable) : DropsJob ctx e s ch n ↔
    LastAttempt e ∧ ¬ s.log.CtxDone ctx ∧ 2 ≤ n ∧ (ch 1).fail = none := by
  simp [DropsJob, he]

/-- An acknowledged message of which nothing was appended is lost. -/
theorem not_retryKeeps (hacked : ¬ StillPending c id s')
    (hentries : ∀ stream, (s'.streams stream).entries = (s.streams stream).entries) :
    ¬ RetryKeeps c d e id err s s' rest := by
  rintro ⟨hpend | hcopy | hbury, -⟩
  · exact hacked hpend
  · exact not_appended_of_entries (hentries c.streamName) hcopy
  · exact not_appended_of_entries (hentries d.streamName) hbury

theorem stillPending_of_streams (h : s'.streams = s.streams) (hpend : StillPending c id s) :
    StillPending c id s' := by
  unfold StillPending
  rw [h]
  exact hpend

/-- The branch that makes a copy loses nothing. -/
theorem retryKeeps_copy (he : e.Encodable) (hlast : ¬ LastAttempt e) (hpend : StillPending c id s)
    (hrun : Prog.soloFor (alone D t ch) n (c.retry ctx e id err) (s, 0) = some (rest, s', i)) :
    RetryKeeps c d e id err s s' rest := by
  obtain ⟨text, k, hparse, hretry, hok, herr⟩ := retry_eq_copy c ctx id err he hlast
  rw [hretry] at hrun
  cases n with
  | zero =>
      cases hrun
      refine .of_pending hpend ?_
      intro hret
      cases hret
  | succ m =>
      obtain ⟨r, x, hans, hrun⟩ := Prog.soloFor_succ (S := sig) hrun
      obtain ⟨s₁, rfl, ⟨-, ⟨rerr, rfl⟩, rfl⟩ | ⟨-, hadd⟩⟩ := alone_redis hans
      · -- the copy was not added, and nothing more is done
        obtain ⟨msg, hmsg⟩ := herr rerr
        rw [hmsg, Prog.soloFor_ret] at hrun
        cases hrun
        refine .of_pending hpend ?_
        intro hret
        cases hret
      · have hcopied : Copied c e err s s₁ := appended_xAdd hadd hparse
        have hpend₁ : StillPending c id s₁ := (stillPending_xAdd hadd c id).mpr hpend
        obtain ⟨rfl, -⟩ := runCmd_xAdd hadd
        rw [hok] at hrun
        rcases ack_outcome hrun with ⟨hstreams, hrest, -⟩ | ⟨hacked, -, hentries, -⟩
        · exact .of_pending (stillPending_of_streams hstreams hpend₁) hrest
        · have hcopied' : Copied c e err s s' :=
            (Appended.congr (hentries c.streamName)).mpr hcopied
          have hnot : ¬ Buried d e err s s' := by
            intro hbury
            obtain ⟨entry, hentry, -⟩ := Appended.of_xAdd hadd
              ((Appended.congr (hentries d.streamName)).mp hbury)
            cases hentry
          exact ⟨Or.inr (Or.inl hcopied'), fun _ => ⟨hacked, Or.inl hcopied',
            fun h => hnot h.2, fun h => absurd h hnot, fun h => absurd h hlast⟩⟩

/-- A job that cannot be marshalled stays pending while it has attempts left. -/
theorem retryKeeps_uncopied (he : ¬ e.Encodable) (hlast : ¬ LastAttempt e)
    (hpend : StillPending c id s)
    (hrun : Prog.soloFor (alone D t ch) n (c.retry ctx e id err) (s, 0) = some (rest, s', i)) :
    RetryKeeps c d e id err s s' rest := by
  obtain ⟨msg, hretry⟩ := retry_eq_uncopied c ctx id err he hlast
  rw [hretry, Prog.soloFor_ret] at hrun
  cases hrun
  refine .of_pending hpend ?_
  intro hret
  cases hret

/-- On its last attempt it is lost exactly if the message is acknowledged. -/
theorem retryKeeps_unsent_iff (hd : c.dlq = some d) (he : ¬ e.Encodable) (hlast : LastAttempt e)
    (hpend : StillPending c id s)
    (hrun : Prog.soloFor (alone D t ch) n (c.retry ctx e id err) (s, 0) = some (rest, s', i)) :
    RetryKeeps c d e id err s s' rest ↔ ¬ DropsJob ctx e s ch n := by
  rw [retry_eq_unsent hd ctx id err he hlast] at hrun
  rw [dropsJob_iff_of_not_encodable he]
  cases n with
  | zero =>
      cases hrun
      refine iff_of_true (.of_pending hpend fun hret => by cases hret) ?_
      rintro ⟨-, -, hn, -⟩
      omega
  | succ m =>
      obtain ⟨now, x, hnow, hrun⟩ := Prog.soloFor_succ (S := sig) hrun
      obtain rfl := alone_now hnow
      rcases ack_outcome hrun with ⟨hstreams, hrest, hlost⟩ | ⟨hacked, -, hentries, hm, hsent⟩
      · refine iff_of_true (.of_pending (stillPending_of_streams hstreams hpend) hrest) ?_
        rintro ⟨-, hctx, hn, hfail⟩
        rcases hlost with hm | hrefused
        · omega
        · exact hrefused.elim hctx fun h => h hfail
      · refine iff_of_false (not_retryKeeps hacked hentries) (not_not_intro ?_)
        have hctx : ¬ s.log.CtxDone ctx := fun hdone => hsent (Or.inl hdone)
        have hfail : (ch 1).fail = none := not_not.mp fun hlost => hsent (Or.inr hlost)
        exact ⟨hlast, hctx, by omega, hfail⟩

/-- The branch that gives the job up loses it exactly if the entry is not added and
    the message acknowledged. -/
theorem retryKeeps_last_iff (hd : c.dlq = some d) (he : e.Encodable) (hlast : LastAttempt e)
    (hpend : StillPending c id s)
    (hrun : Prog.soloFor (alone D t ch) n (c.retry ctx e id err) (s, 0) = some (rest, s', i)) :
    RetryKeeps c d e id err s s' rest ↔ ¬ DropsJob ctx e s ch n := by
  obtain ⟨text, hparse, hretry⟩ := retry_eq_last hd ctx id err he hlast
  rw [hretry] at hrun
  rw [dropsJob_iff_of_encodable he]
  -- before the second command the message is pending and `n` is too small
  have hearly : ∀ {rest : Program (Except String Unit)}, n ≤ 2 → rest ≠ .ret (.ok ()) →
      (RetryKeeps c d e id err s s rest ↔ ¬ (LastAttempt e ∧ ¬ s.log.CtxDone ctx ∧
        3 ≤ n ∧ (ch 1).fail ≠ none ∧ (ch 2).fail = none)) := by
    intro rest hn hrest
    refine iff_of_true (.of_pending hpend hrest) ?_
    rintro ⟨-, -, hn', -⟩
    omega
  match n with
  | 0 =>
      cases hrun
      refine hearly (by omega) ?_
      intro hret
      cases hret
  | 1 =>
      cases hrun
      refine hearly (by omega) ?_
      intro hret
      cases hret
  | m + 2 =>
      obtain ⟨now, x, hnow, hrun⟩ := Prog.soloFor_succ (S := sig) hrun
      obtain rfl := alone_now hnow
      obtain ⟨r, x, hans, hrun⟩ := Prog.soloFor_succ (S := sig) hrun
      obtain ⟨s₁, rfl, ⟨href, -, rfl⟩ | ⟨hsent, hadd⟩⟩ := alone_redis hans
      · -- the entry was not added
        rcases ack_outcome hrun with ⟨hstreams, hrest, hlost⟩ | ⟨hacked, -, hentries, hm, hsent₂⟩
        · refine iff_of_true (.of_pending (stillPending_of_streams hstreams hpend) hrest) ?_
          rintro ⟨-, hctx, hn, -, hfail⟩
          rcases hlost with hm | hrefused
          · omega
          · have hrefused : Refused (ch 2) ctx _ := (refused_record_cmd rfl).mp hrefused
            exact hrefused.elim hctx fun h => h hfail
        · have hsent₂ : ¬ Refused (ch 2) ctx _ := fun h => hsent₂ ((refused_record_cmd rfl).mpr h)
          refine iff_of_false (not_retryKeeps hacked hentries) (not_not_intro ?_)
          have hctx : ¬ s₁.log.CtxDone ctx := fun hdone => hsent₂ (Or.inl hdone)
          have hfail : (ch 2).fail = none := not_not.mp fun hlost => hsent₂ (Or.inr hlost)
          exact ⟨hlast, hctx, by omega, href.resolve_left hctx, hfail⟩
      · have hburied : Buried d e err s s₁ := appended_xAdd hadd (hparse now)
        have hpend₁ : StillPending c id s₁ := (stillPending_xAdd hadd c id).mpr hpend
        refine iff_of_true ?_ fun ⟨_, _, _, hlost, _⟩ => hsent (Or.inr hlost)
        rcases ack_outcome hrun with ⟨hstreams, hrest, -⟩ | ⟨hacked, -, hentries, -⟩
        · exact .of_pending (stillPending_of_streams hstreams hpend₁) hrest
        · have hburied' : Buried d e err s s' :=
            (Appended.congr (hentries d.streamName)).mpr hburied
          have hnocopy : ¬ Copied c e err s s' := by
            intro hcopy
            cases Appended.of_xAdd hadd ((Appended.congr (hentries c.streamName)).mp hcopy)
          exact ⟨Or.inr (Or.inr hburied'), fun _ => ⟨hacked, Or.inr hburied',
            fun h => hnocopy h.1, fun _ => hlast, fun _ => hburied'⟩⟩

/-- `Retry` of a pending message, by a consumer with a dead letter queue, under any
    pattern of failures and with the process dying after any number of calls: the
    job is kept, unless the dead letter entry is not added and the acknowledgement is
    not lost. -/
theorem retry_keeps_iff (hd : c.dlq = some d) (hpend : StillPending c id s)
    (hrun : Prog.soloFor (alone D t ch) n (c.retry ctx e id err) (s, 0) = some (rest, s', i)) :
    RetryKeeps c d e id err s s' rest ↔ ¬ DropsJob ctx e s ch n := by
  by_cases hlast : LastAttempt e <;> by_cases he : e.Encodable
  · exact retryKeeps_last_iff hd he hlast hpend hrun
  · exact retryKeeps_unsent_iff hd he hlast hpend hrun
  · exact iff_of_true (retryKeeps_copy he hlast hpend hrun) fun hdrop => hlast hdrop.1
  · exact iff_of_true (retryKeeps_uncopied he hlast hpend hrun) fun hdrop => hlast hdrop.1

end Retry

-- ============================================================================
-- Two runs
-- ============================================================================

theorem stillPending_oneHeld (v : Values) : StillPending someConsumer (.of 1 0) (oneHeld v) := by
  unfold StillPending
  rw [oneHeld_stream]
  exact isPending_heldStream _

/-- Every command is executed. -/
def healthy : Nat → Choice := fun _ => { id := .of 2 0 }

/-- The second call fails, the others are executed. -/
def secondFails : Nat → Choice := fun i =>
  if i = 1 then { fail := some "connection reset" } else { id := .of 2 0 }

/-- An envelope with attempts left. -/
def freshEnvelope : JobEnvelope := { JobEnvelope.zero with maxRetries := 3 }

/-- The process dies after the copy was added and before the acknowledgement. -/
theorem retry_keeps_iff_dying : ∃ text rest s',
    Prog.soloFor (alone (.ofDefaults true) 0 healthy) 1
      (someConsumer.retry (.worker 0) freshEnvelope (.of 1 0) "boom")
      (oneHeld (jobValues text), 0) = some (rest, s', 1) ∧
    RetryKeeps someConsumer (Deployment.ofDefaults true).dlq freshEnvelope (.of 1 0) "boom"
      (oneHeld (jobValues text)) s' rest := by
  have hmarshal : ∃ text, envelopeStruct.marshal freshEnvelope = .ok text := ⟨_, rfl⟩
  obtain ⟨text, htext⟩ := hmarshal
  have hrun : ∃ rest s', Prog.soloFor (alone (.ofDefaults true) 0 healthy) 1
      (someConsumer.retry (.worker 0) freshEnvelope (.of 1 0) "boom")
      (oneHeld (jobValues text), 0) = some (rest, s', 1) := ⟨_, _, rfl⟩
  obtain ⟨rest, s', hrun⟩ := hrun
  have hiff := retry_keeps_iff (d := (Deployment.ofDefaults true).dlq) rfl
    (stillPending_oneHeld _) hrun
  refine ⟨text, rest, s', hrun, hiff.mpr fun hdrop => ?_⟩
  exact absurd hdrop.1 (by decide)

/-- The last attempt of a job failed, its dead letter entry is lost, and `Retry`
    acknowledges the message and returns nil. -/
theorem retry_drops : ∃ text s',
    Prog.soloFor (alone (.ofDefaults true) 0 secondFails) 3
      (someConsumer.retry (.worker 0) .zero (.of 1 0) "boom") (oneHeld (jobValues text), 0) =
      some (.ret (.ok ()), s', 3) ∧
    ¬ RetryKeeps someConsumer (Deployment.ofDefaults true).dlq .zero (.of 1 0) "boom"
      (oneHeld (jobValues text)) s' (.ret (.ok ())) := by
  have hmarshal : ∃ text, envelopeStruct.marshal .zero = .ok text := ⟨_, rfl⟩
  obtain ⟨text, htext⟩ := hmarshal
  have hrun : ∃ s', Prog.soloFor (alone (.ofDefaults true) 0 secondFails) 3
      (someConsumer.retry (.worker 0) .zero (.of 1 0) "boom") (oneHeld (jobValues text), 0) =
      some (.ret (.ok ()), s', 3) := ⟨_, rfl⟩
  obtain ⟨s', hrun⟩ := hrun
  have hzero : JobEnvelope.zero.Encodable := JobEnvelope.marshal_ok_iff.mp ⟨text, htext⟩
  have hiff := retryKeeps_last_iff (d := (Deployment.ofDefaults true).dlq) rfl hzero (by decide)
    (stillPending_oneHeld _) hrun
  refine ⟨text, s', hrun, fun hkeeps => hiff.mp hkeeps ⟨by decide, ?_, Or.inl ⟨hzero, by omega,
    Option.some_ne_none _, rfl⟩⟩⟩
  rintro ⟨e, he, -⟩
  cases he

end LogPipeline.Cluster
