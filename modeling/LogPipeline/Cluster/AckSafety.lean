/-
  LogPipeline.Cluster.AckSafety

  Acknowledgement and completion.

  With the deduplicating processor the key of an attempt is set before the work
  is done.  A second delivery of the message finds the key, takes the attempt for
  a duplicate of a success and acknowledges it, also when the first delivery has
  crashed in between or is still at work: `unjustified_ack` is such a run.  As
  long as every duplicate check that finds its key comes after the outcome of the
  delivery that set it, every acknowledgement is justified (`acks_justified`).
-/

import LogPipeline.Cluster.Faults

namespace LogPipeline.Cluster

open Conc Go Redis Queue Bootstrap

-- ============================================================================
-- The property
-- ============================================================================

/-- The outcome of an attempt is on record: the downstream processor returned nil
    for the job, a copy with a greater retry count was added to the stream, or an
    entry for it was added to the dead letter queue. -/
def Accounted (D : Deployment) (h : Log) (stream : String) (job : JobEnvelope) : Prop :=
  (∃ e ∈ h, e.ev.succeeded = some job.jobID) ∨
  (∃ e ∈ h, ∃ x ∈ e.ev.jobAdded, x.1 = stream ∧ x.2.2.jobID = job.jobID ∧
    job.retryCount < x.2.2.retryCount) ∨
  (∃ e ∈ h, ∃ x ∈ e.ev.entryAdded, x.1 = D.dlq.streamName ∧ x.2.2.jobID = job.jobID)

instance (D : Deployment) (h : Log) (stream : String) (job : JobEnvelope) :
    Decidable (Accounted D h stream job) :=
  inferInstanceAs (Decidable (_ ∨ _ ∨ _))

/-- Whenever an XACK was executed for a message that holds a job, the outcome of
    that attempt was on record. -/
def AcksJustified (D : Deployment) : Log → Prop :=
  Log.Every fun h e => ∀ a ∈ e.ev.acked, ∀ x ∈ h, ∀ m ∈ x.ev.jobAdded,
    m.1 = a.1 → m.2.1 = a.2.2 → Accounted D h a.1 m.2.2

instance (D : Deployment) (h : Log) : Decidable (AcksJustified D h) :=
  inferInstanceAs (Decidable (Log.Every _ h))

-- ============================================================================
-- The assumptions
-- ============================================================================

/-- Every command is answered, nothing is trimmed, no dedup key expires and no
    operator requeues; workers may crash anywhere. -/
@[reducible] def ackPolicy (D : Deployment) : Policy (world D) where
  call := fun _ ch o s => ∀ x ∈ Op.command o, Answered ch x.1 s ∧ ch.trim = 0
  env := fun m s => Move.KeepsKeys s m
  start := fun j _ => Job.isRequeue j = false
  crash := fun _ _ => True

/-- The event puts the outcome of a delivery on record: a nil result, or the XADD
    of the copy or the dead letter. -/
def Ev.records : Ev → Bool
  | .returned _ none => true
  | .cmd _ (.xAdd ..) (.ok _) _ => true
  | _ => false

/-- Every delivery that has set the key is past the point where its outcome is on
    record: it is not at work before that point, and was not lost in a crash
    before it. -/
def ClaimantsDone (s : Store) (key : String) : Prop :=
  ∀ e ∈ s.log, e.ev.claimed = some key → ∃ u ∈ e.tid, (s.log.own u).any Ev.records = true

instance (s : Store) (key : String) : Decidable (ClaimantsDone s key) :=
  inferInstanceAs (Decidable (∀ e ∈ s.log, _ → _))

/-- `ackPolicy`, and a duplicate check is made only while its key is not set or
    the delivery that set it is done. -/
@[reducible] def guardedAckPolicy (D : Deployment) : Policy (world D) where
  call := fun t ch o s => (ackPolicy D).call t ch o s ∧
    ∀ x ∈ Op.command o, ∀ key ∈ x.2.checks, s.Live key → ClaimantsDone s key
  env := (ackPolicy D).env
  start := (ackPolicy D).start
  crash := (ackPolicy D).crash

-- ============================================================================
-- When acknowledgements are justified
-- ============================================================================

section

variable {D : Deployment} {h : Log}

theorem Accounted.mono {h' : Log} {stream : String} {job : JobEnvelope}
    (ha : Accounted D h stream job) (hsub : ∀ e ∈ h, e ∈ h') : Accounted D h' stream job := by
  rcases ha with ⟨e, he, hev⟩ | ⟨e, he, hev⟩ | ⟨e, he, hev⟩
  · exact Or.inl ⟨e, hsub e he, hev⟩
  · exact Or.inr (Or.inl ⟨e, hsub e he, hev⟩)
  · exact Or.inr (Or.inr ⟨e, hsub e he, hev⟩)

/-- Only the job and the retry count of the envelope matter. -/
theorem Accounted.congr {stream : String} {job job' : JobEnvelope}
    (ha : Accounted D h stream job) (hj : job.jobID = job'.jobID)
    (hr : job.retryCount = job'.retryCount) : Accounted D h stream job' := by
  unfold Accounted at ha ⊢
  rw [← hj, ← hr]
  exact ha

/-- A delivery whose outcome is on record accounts for its attempt. -/
theorem Valid.accounted_of_records (hv : Valid D h) {t : Nat} {d : Delivery} {ev : Ev}
    (hd : .started d ∈ h.own t) (hev : ev ∈ h.own t) (hrec : ev.records = true) :
    Accounted D h (D.stream d.run) d.envelope := by
  have ht := hv.trace t
  obtain ⟨e, he, -, rfl⟩ := Log.mem_own.mp hev
  unfold Ev.records at hrec
  split at hrec
  · -- the downstream processor returned nil
    next env hret =>
      rw [hret] at hev
      obtain ⟨d', hd', rfl, -⟩ := ht.invoked (ht.returned hev)
      obtain rfl := ht.started_unique hd hd'
      exact Or.inl ⟨e, he, Ev.succeeded_eq_some.mpr ⟨_, hret, rfl⟩⟩
  · -- an entry was added
    next ctx stream maxLen v id now hadd =>
      rw [hadd] at hev
      have hadds : e.ev.Adds stream id v := ⟨ctx, maxLen, now, hadd⟩
      obtain ⟨err, hcopy | hbury⟩ := ht.delivery_adds hd hev
      · obtain ⟨text, htext, hx, rfl, rfl⟩ := hcopy
        refine Or.inr (Or.inl ⟨e, he, (_, id, d.failed err), ?_, rfl, rfl, ?_⟩)
        · exact Ev.jobAdded_eq_some.mpr ⟨_, hadds, job_jobValues htext⟩
        · exact (hv.delivery_ok hd).lt_failed err
      · obtain ⟨text, clock, htext, hx, rfl, rfl⟩ := hbury
        refine Or.inr (Or.inr ⟨e, he, (_, id, d.failed err), ?_, rfl, rfl⟩)
        exact Ev.entryAdded_eq_some.mpr ⟨_, _, hadds, letter_entryValues htext, rfl⟩
  · cases hrec

/-- What the guards of `guardedAckPolicy` say about the log. -/
structure Guarded (D : Deployment) (h : Log) : Prop where
  added : ∀ e ∈ h, ∀ ctx stream maxLen v err now,
    e.ev ≠ .cmd ctx (.xAdd stream maxLen v) (.error err) now
  done : ∀ h₁ e h₂, h = h₁ ++ e :: h₂ → ∀ (d : Delivery) (now : Nat),
    e.ev = D.check d (.ok false) now → ∀ e' ∈ h₂, e'.ev.claimed = some d.key →
      ∃ u ∈ e'.tid, (Log.own h₂ u).any Ev.records = true

/-- A delivery that was told it is a duplicate: the one that set the key accounts
    for the attempt. -/
theorem Valid.accounted_of_duplicate (hv : Valid D h) (hg : Guarded D h)
    (hone : ∀ run run', D.partition run = D.partition run') {t : Nat} {d : Delivery} {now : Nat}
    (hcheck : D.check d (.ok false) now ∈ h.own t) :
    Accounted D h (D.stream d.run) d.envelope := by
  obtain ⟨e, he, -, hev⟩ := Log.mem_own.mp hcheck
  obtain ⟨h₁, h₂, rfl, hv'⟩ := hv.upTo he
  have hsub : ∀ x ∈ h₂, x ∈ h₁ ++ e :: h₂ := fun x hx => Log.mem_of_before hx
  -- the key was set by an earlier event, and its delivery is done
  have hs := hv'.served
  rw [hev] at hs
  obtain ⟨e', he', x, hclaim, -⟩ := hs.2
  obtain ⟨u, hu, hrec⟩ := hg.done h₁ e h₂ rfl d now hev e' he' (Ev.claimed_eq_some.mpr ⟨x, hclaim⟩)
  have hmem : e'.ev ∈ Log.own h₂ u := Log.mem_own.mpr ⟨e', he', hu, rfl⟩
  obtain ⟨d', -, hd', -, hj, hr⟩ := (hv'.1.trace u).claims hmem hclaim
  obtain ⟨ev, hevu, hrec⟩ := List.any_eq_true.mp hrec
  have hacc := (hv'.1.accounted_of_records hd' hevu hrec).congr hj hr
  have hstream : D.stream d'.run = D.stream d.run := by
    unfold Deployment.stream
    rw [hone d'.run d.run]
  rw [hstream] at hacc
  exact hacc.mono hsub

/-- A delivery that acknowledges its message has its attempt accounted for. -/
theorem Valid.accounted_of_settled (hv : Valid D h) (hg : Guarded D h)
    (hone : ∀ run run', D.partition run = D.partition run') {t : Nat} {d : Delivery}
    (hs : Settled D d (h.own t)) : Accounted D h (D.stream d.run) d.envelope := by
  have hstart := hs.started
  generalize ho : h.own t = o at hs
  have hmem : ∀ ev ∈ o, ev ∈ h.own t := fun ev hev => by rw [ho]; exact hev
  cases hs with
  | done hp =>
      cases hp with
      | duplicate now hd =>
          exact hv.accounted_of_duplicate hg hone (hmem _ (List.mem_cons_self ..))
      | fresh now res hd =>
          exact hv.accounted_of_records hstart (hmem _ (List.mem_cons_self ..)) rfl
      | plain res hd =>
          exact hv.accounted_of_records hstart (hmem _ (List.mem_cons_self ..)) rfl
  | copied hp hx htext =>
      exact hv.accounted_of_records hstart (hmem _ (List.mem_cons_self ..)) rfl
  | @buried _ _ _ _ reply _ hp hx htext =>
      have hev := hmem _ (List.mem_cons_self ..)
      cases reply with
      | ok id => exact hv.accounted_of_records hstart hev rfl
      | error err =>
          obtain ⟨e, he, -, heq⟩ := Log.mem_own.mp hev
          exact absurd heq (hg.added e he _ _ _ _ _ _)

/-- An XADD that the server gets and answers does not fail. -/
theorem answered_xAdd {ch : Choice} {ctx : Ctx} {s s₁ : Store} {stream : String}
    {maxLen : Int64} {v : Values} {reply : Except RedisError StreamID}
    (hans : Answered ch ctx s)
    (h : answer ch ctx (.xAdd stream maxLen v) s = some (reply, s₁)) : reply = .ok ch.id := by
  rcases answer_cases h with ⟨hd, -⟩ | ⟨-, msg, hmsg, -⟩ | ⟨-, -, hrun⟩
  · exact absurd hd hans.2
  · rw [hans.1] at hmsg
    cases hmsg
  · exact (runCmd_xAdd hrun).1

/-- SETNX is refused only while the key exists. -/
theorem live_of_setNX_false {ch : Choice} {s s₁ : Store} {key value : String} {ttl : Duration}
    (h : runCmd ch s (.setNX key value ttl) = some (.ok false, s₁)) : s.Live key := by
  rcases runCmd_setNX h with ⟨-, ⟨err, hr⟩, -⟩ | ⟨hlive, -, -⟩ | ⟨-, hr, -⟩
  · cases hr
  · exact hlive
  · cases hr

theorem reachable_guarded {c : Conf (world D)}
    (hc : (guardedAckPolicy D).Reachable Store.init c) : Guarded D c.store.log := by
  refine ⟨?_, ?_⟩
  · intro e he ctx stream maxLen v err now hev
    obtain ⟨h₁, h₂, hlog⟩ := List.append_of_mem he
    refine reachable_cmd (G := fun _ ev => ∀ ctx stream maxLen v err now,
      ev ≠ .cmd ctx (.xAdd stream maxLen v) (.error err) now) ?_ hc hlog ⟨_, _, _, _, hev⟩
      ctx stream maxLen v err now hev
    intro x t ch ctx cmd reply s₁ _ hp hans _ ctx' stream maxLen v err now hev
    cases hev
    cases answered_xAdd (hp.1 _ rfl).1 hans
  · intro h₁ e h₂ hlog d now hev
    refine reachable_cmd (G := fun h ev => ev = D.check d (.ok false) now →
      ∀ e' ∈ h, e'.ev.claimed = some d.key →
        ∃ u ∈ e'.tid, (Log.own h u).any Ev.records = true) ?_ hc hlog ⟨_, _, _, _, hev⟩ hev
    intro x t ch ctx cmd reply s₁ hx hp hans hserved hev
    cases hev
    refine hp.2 _ rfl d.key (checks_dedupKey ..) ?_
    rcases answer_cases hans with ⟨-, hr, -⟩ | ⟨-, msg, -, hr, -⟩ | ⟨-, -, hrun⟩
    · cases hr
    · cases hr
    · exact live_of_setNX_false hrun

/-- In every run in which a duplicate check never meets a key whose delivery is
    not done, an acknowledgement implies completion. -/
theorem acks_justified (hone : ∀ run run', D.partition run = D.partition run')
    {c : Conf (world D)} (hc : (guardedAckPolicy D).Reachable Store.init c) :
    AcksJustified D c.store.log := by
  refine reachable_every ?_ hc
  intro x s' e hx hm hlog hv a ha y hy m hm' hstream hid
  rw [hlog] at hv
  obtain ⟨ctx, n, now, hev⟩ := Ev.acked_eq_some.mp ha
  obtain ⟨t, -, hmay⟩ := hv.may (by simp [hev])
  rw [hev] at hmay
  obtain ⟨d, -, hcmd, hsettled⟩ := hmay
  obtain ⟨hds, -, hdid⟩ := Cmd.xAck.inj hcmd
  have hvx := hv.1
  have hjob : Log.HasJob x.store.log (D.stream d.run) d.id m.2.2 := by
    rw [← hds, ← hdid, ← hstream, ← hid]
    exact Log.hasJob_iff.mpr ⟨y, hy, hm'⟩
  have henv : m.2.2 = d.envelope := hvx.hasJob_unique hjob (hvx.held hsettled.started).hasJob
  rw [henv, hds]
  exact hvx.accounted_of_settled (reachable_guarded hx) hone hsettled

end

-- ============================================================================
-- Runs
-- ============================================================================

/-- One job is enqueued and read by a worker. -/
def oneJob (D : Deployment) : List (Action (world D)) :=
  [.start .setupPartitions] ++ steps 0 3 ++
  [.start (.enqueue { LogEvent.zero with service := "a" })] ++
  steps 1 5 { uuid := "j", id := .of 1 0 } ++
  [.start (.poll 0 1)] ++ steps 2 5

/-- Another worker reclaims the message and processes it to the end. -/
def reclaimed (D : Deployment) : List (Action (world D)) :=
  [.env (.tick 60000), .start (.reclaim 1 1 0)] ++ steps 4 5 ++ [.start (.process 0)] ++ steps 5 6

/-- The delivery that was done is redelivered: the run of `acks_justified`. -/
theorem acks_justified_redelivery : ∃ c,
    (guardedAckPolicy (.ofDefaults true)).Reachable Store.init c ∧
    (∃ e ∈ c.store.log, e.ev.acked ≠ none) ∧ AcksJustified (.ofDefaults true) c.store.log := by
  -- the first worker crashes after the downstream call, before its XACK
  obtain ⟨c, hc, hack⟩ : ∃ c, (guardedAckPolicy (.ofDefaults true)).Reachable Store.init c ∧
      ∃ e ∈ c.store.log, e.ev.acked ≠ none := Policy.exists_reachable
    (oneJob _ ++ [.start (.process 0)] ++ steps 3 4 ++ [.crash 3] ++ reclaimed _)
    (by decide +kernel) (by decide +kernel)
  exact ⟨c, hc, hack, acks_justified (fun _ _ => rfl) hc⟩

/-- A worker crashes between its SETNX and the downstream call; the next one takes
    the message for a duplicate and acknowledges it. -/
theorem unjustified_ack : ∃ (D : Deployment) (c : Conf (world D)), D.dedup = true ∧
    (∀ run run', D.partition run = D.partition run') ∧
    (ackPolicy D).Reachable Store.init c ∧ ¬ AcksJustified D c.store.log := by
  obtain ⟨c, hc, hack⟩ : ∃ c, (ackPolicy (.ofDefaults true)).Reachable Store.init c ∧
      ¬ AcksJustified (.ofDefaults true) c.store.log := Policy.exists_reachable
    (oneJob _ ++ [.start (.process 0)] ++ steps 3 2 ++ [.crash 3] ++ reclaimed _)
    (by decide +kernel) (by decide +kernel)
  exact ⟨.ofDefaults true, c, rfl, fun _ _ => rfl, hc, hack⟩

end LogPipeline.Cluster
