/-
  LogPipeline.Cluster.Jobs

  Jobs as a valid log shows them: which entries hold them, where these come from
  and which delivery did what.

  - `Valid.adds_unique`: an entry id is given out once.
  - `Valid.job_ok`: every job entry has a retry count below the configured
    maximum.
  - `Valid.once`: events of which a task logs at most one.
-/

import LogPipeline.Cluster.Runs

namespace LogPipeline.Cluster

open Conc Go Redis Queue Bootstrap

-- ============================================================================
-- Entries
-- ============================================================================

/-- An entry that holds a job was added to the stream. -/
def Log.HasJob (h : Log) (stream : String) (id : StreamID) (e : JobEnvelope) : Prop :=
  ∃ v, h.Added stream id v ∧ v.job = some e

/-- A dead letter entry for the job was added to the stream. -/
def Log.HasEntry (h : Log) (stream : String) (id : StreamID) (job : JobEnvelope) : Prop :=
  ∃ v entry, h.Added stream id v ∧ v.letter = some entry ∧ entry.jobData = some job

theorem Held.hasJob {D : Deployment} {h : Log} {d : Delivery} (hd : Held D h d) :
    h.HasJob (D.stream d.run) d.id d.envelope := by
  obtain ⟨v, ha, hp⟩ := hd
  exact ⟨v, ha, job_of_parseJob hp⟩

namespace Valid

variable {D : Deployment} {h : Log}

/-- The older part of a valid log is valid. -/
theorem suffix {h₁ : Log} (hv : Valid D (h₁ ++ h)) : Valid D h := by
  induction h₁ with
  | nil => exact hv
  | cons e h₁ ih => exact ih hv.1

/-- Ids are given out in increasing order, so an id names one entry. -/
theorem adds_lt {e : Event Ev} {stream : String} {id id' : StreamID} {v v' : Values}
    (hv : Valid D (e :: h)) (ha : e.ev.Adds stream id v) (ha' : h.Added stream id' v') :
    id' < id := by
  obtain ⟨ctx, maxLen, now, hev⟩ := ha
  have hs := hv.served
  rw [hev] at hs
  exact hs.2 id' v' ha'

theorem adds_unique (hv : Valid D h) {e e' : Event Ev} {stream : String} {id : StreamID}
    {v v' : Values} (he : e ∈ h) (he' : e' ∈ h) (ha : e.ev.Adds stream id v)
    (ha' : e'.ev.Adds stream id v') : e = e' := by
  rcases hv.order he he' with heq | ⟨h₁, h₂, -, hv', hm⟩ | ⟨h₁, h₂, -, hv', hm⟩
  · exact heq
  · exact absurd (hv'.adds_lt ha ⟨e', hm, ha'⟩) (lt_irrefl id)
  · exact absurd (hv'.adds_lt ha' ⟨e, hm, ha⟩) (lt_irrefl id)

theorem added_unique (hv : Valid D h) {stream : String} {id : StreamID} {v v' : Values}
    (ha : h.Added stream id v) (ha' : h.Added stream id v') : v = v' := by
  obtain ⟨e, he, hev⟩ := ha
  obtain ⟨e', he', hev'⟩ := ha'
  obtain rfl := hv.adds_unique he he' hev hev'
  obtain ⟨ctx, maxLen, now, h1⟩ := hev
  obtain ⟨ctx', maxLen', now', h2⟩ := hev'
  rw [h1] at h2
  cases h2
  rfl

theorem hasJob_unique (hv : Valid D h) {stream : String} {id : StreamID} {e e' : JobEnvelope}
    (hj : h.HasJob stream id e) (hj' : h.HasJob stream id e') : e = e' := by
  obtain ⟨v, ha, hp⟩ := hj
  obtain ⟨v', ha', hp'⟩ := hj'
  obtain rfl := hv.added_unique ha ha'
  rw [hp] at hp'
  exact Option.some.inj hp'

/-- What a task handles was in its worker's stream. -/
theorem held (hv : Valid D h) {t : Nat} {d : Delivery} (hd : .started d ∈ h.own t) :
    Held D h d := by
  obtain ⟨e, he, -, hev⟩ := Log.mem_own.mp hd
  obtain ⟨h₁, h₂, rfl, hv'⟩ := hv.upTo he
  have hs := hv'.served
  rw [hev] at hs
  exact Held.mono hs fun x hx => Log.mem_of_before hx

end Valid

-- ============================================================================
-- Retry counts
-- ============================================================================

/-- The next retry count does not overflow. -/
theorem toInt_add_one {r m : Int64} (h : r < m) : (r + 1).toInt = r.toInt + 1 := by
  have hlt := Int64.lt_iff_toInt_lt.mp h
  have hlo := Int64.le_toInt r
  have hhi := Int64.toInt_lt m
  have hone : (1 : Int64).toInt = 1 := by decide
  rw [Int64.toInt_add, hone]
  apply Int.bmod_eq_of_le
  · omega
  · omega

/-- The job of an entry has a retry count below the configured maximum. -/
structure JobOk (D : Deployment) (e : JobEnvelope) : Prop where
  nonneg : 0 ≤ e.retryCount
  lt : e.retryCount < e.maxRetries
  max : e.maxRetries = D.cfg.queue.redisMaxRetries

namespace JobOk

variable {D : Deployment}

theorem failed {d : Delivery} (hok : JobOk D d.envelope) (hx : ¬ d.Exhausted) (err : String) :
    JobOk D (d.failed err) := by
  have hr := toInt_add_one hok.lt
  have h0 := Int64.le_iff_toInt_le.mp hok.nonneg
  have hz : (0 : Int64).toInt = 0 := by decide
  refine ⟨?_, ?_, hok.max⟩
  · change 0 ≤ d.envelope.retryCount + 1
    rw [Int64.le_iff_toInt_le, hr]
    omega
  · exact Int64.not_le.mp hx

/-- The retry count of the next attempt is the larger one. -/
theorem lt_failed {d : Delivery} (hok : JobOk D d.envelope) (err : String) :
    d.envelope.retryCount < (d.failed err).retryCount := by
  change d.envelope.retryCount < d.envelope.retryCount + 1
  rw [Int64.lt_iff_toInt_lt, toInt_add_one hok.lt]
  omega

theorem reset {e : JobEnvelope} (hmax : e.maxRetries = D.cfg.queue.redisMaxRetries) :
    JobOk D (DLQ.resetForRequeue e) :=
  ⟨Int64.le_refl 0, by rw [DLQ.resetForRequeue, hmax]; exact D.accepted.queue.redisMaxRetries, hmax⟩

theorem new (uuid : String) (ev : LogEvent) (now : Instant) : JobOk D (D.newEnvelope uuid ev now) :=
  ⟨Int64.le_refl 0, D.accepted.queue.redisMaxRetries, rfl⟩

/-- The retry count of a job entry, as a number. -/
theorem count {e : JobEnvelope} (hok : JobOk D e) : ∃ n : Nat,
    e.retryCount = Int64.ofNat n ∧ e.retryCount.toInt = n ∧
      (n : Int) < D.cfg.queue.redisMaxRetries.toInt := by
  have h0 := Int64.le_iff_toInt_le.mp hok.nonneg
  have hlt := Int64.lt_iff_toInt_lt.mp hok.lt
  have hz : (0 : Int64).toInt = 0 := by decide
  have hhi := Int64.toInt_lt e.retryCount
  rw [hok.max] at hlt
  refine ⟨e.retryCount.toInt.toNat, ?_, by omega, by omega⟩
  rw [← Int64.toInt_inj, Int64.toInt_ofNat_of_lt (by omega)]
  omega

end JobOk

-- ============================================================================
-- Where entries come from
-- ============================================================================

/-- A job entry is new, the copy of a failed attempt, or requeued. -/
inductive JobOrigin (D : Deployment) (o : List Ev) (stream : String) : JobEnvelope → Prop
  | new {uuid : String} {ev : LogEvent} {clock : Instant} (hm : .minted uuid ∈ o)
      (hs : stream = streamNameFor D.cfg.queue ev.service) :
      JobOrigin D o stream (D.newEnvelope uuid ev clock)
  | copy {d : Delivery} {err : String} (hp : Processed D d (some err) o) (hx : ¬ d.Exhausted)
      (hs : stream = D.stream d.run) : JobOrigin D o stream (d.failed err)
  | requeued {id : StreamID} {msg : Entry Values} {rest : List (Entry Values)} {now : Nat}
      {entry : DLQEntry} {job : JobEnvelope} (ho : o = [D.fetch id (.ok (msg :: rest)) now])
      (he : DLQ.parseEntry msg.values = .ok entry) (hj : entry.jobData = some job) :
      JobOrigin D o stream (DLQ.resetForRequeue job)

theorem Origin.of_job {D : Deployment} {o : List Ev} {ctx : Ctx} {stream : String}
    {maxLen : Int64} {v : Values} {e : JobEnvelope} (ho : Origin D o ctx (.xAdd stream maxLen v))
    (hp : v.job = some e) : JobOrigin D o stream e := by
  generalize hc : Cmd.xAdd stream maxLen v = c at ho
  cases ho with
  | enqueue ho hm ht =>
      cases hc
      rw [job_jobValues ht] at hp
      cases hp
      exact .new hm rfl
  | copy hproc hx ht =>
      cases hc
      rw [job_jobValues ht] at hp
      cases hp
      exact .copy hproc hx rfl
  | bury hproc hx ht =>
      cases hc
      rw [job_entryValues] at hp
      cases hp
  | requeue he hj ht =>
      cases hc
      rw [job_jobValues ht] at hp
      cases hp
      exact .requeued rfl he hj

/-- A dead letter entry comes from a delivery that used the retries up. -/
theorem Origin.of_entry {D : Deployment} {o : List Ev} {ctx : Ctx} {stream : String}
    {maxLen : Int64} {v : Values} {entry : DLQEntry}
    (ho : Origin D o ctx (.xAdd stream maxLen v)) (hp : v.letter = some entry) :
    ∃ d err clock, Processed D d (some err) o ∧ d.Exhausted ∧ entry = d.deadLetter err clock ∧
      stream = D.dlq.streamName := by
  generalize hc : Cmd.xAdd stream maxLen v = c at ho
  cases ho with
  | enqueue ho hm ht =>
      cases hc
      rw [letter_jobValues] at hp
      cases hp
  | copy hproc hx ht =>
      cases hc
      rw [letter_jobValues] at hp
      cases hp
  | bury hproc hx ht =>
      cases hc
      rw [letter_entryValues ht] at hp
      cases hp
      exact ⟨_, _, _, hproc, hx, rfl, rfl⟩
  | requeue he hj ht =>
      cases hc
      rw [letter_jobValues] at hp
      cases hp

/-- A task that has looked up an entry adds the job in it, and nothing else. -/
theorem Origin.of_fetch {D : Deployment} {id : StreamID} {msg : Entry Values}
    {rest : List (Entry Values)} {now : Nat} {ctx : Ctx} {stream : String} {maxLen : Int64}
    {v : Values}
    (ho : Origin D [D.fetch id (.ok (msg :: rest)) now] ctx (.xAdd stream maxLen v)) :
    ∃ entry job text, DLQ.parseEntry msg.values = .ok entry ∧ entry.jobData = some job ∧
      envelopeStruct.marshal (DLQ.resetForRequeue job) = .ok text ∧ v = jobValues text := by
  generalize hc : Cmd.xAdd stream maxLen v = c at ho
  generalize hl : [D.fetch id (.ok (msg :: rest)) now] = o at ho
  cases ho with
  | enqueue ho hm ht =>
      subst hl
      simp [Deployment.fetch] at hm
  | copy hp hx ht =>
      subst hl
      cases hp
  | bury hp hx ht =>
      subst hl
      cases hp
  | requeue he hj ht =>
      cases hl
      cases hc
      exact ⟨_, _, _, he, hj, ht, rfl⟩

namespace Valid

variable {D : Deployment} {h : Log}

/-- A task that has looked up an entry was given one that had been added. -/
theorem fetched (hv : Valid D h) {t : Nat} {id : StreamID} {msg : Entry Values}
    {rest : List (Entry Values)} {now : Nat}
    (hf : D.fetch id (.ok (msg :: rest)) now ∈ h.own t) :
    h.Added D.dlq.streamName id msg.values ∧ msg.id = id := by
  obtain ⟨e, he, -, hev⟩ := Log.mem_own.mp hf
  obtain ⟨h₁, h₂, rfl, hv'⟩ := hv.upTo he
  have hs := hv'.served
  rw [hev] at hs
  obtain ⟨ha, hlo, hhi⟩ := hs.2 msg (List.mem_cons_self ..)
  have hid : msg.id = id := le_antisymm hhi hlo
  rw [hid] at ha
  exact ⟨ha.mono fun x hx => Log.mem_of_before hx, hid⟩

/-- Retry counts stay below the maximum, by induction over the log: a new job
    starts at zero, a copy is made only while another attempt is left, and a
    requeued job starts again. -/
theorem jobs_ok (hv : Valid D h) :
    (∀ stream id e, h.HasJob stream id e → JobOk D e) ∧
    (∀ stream id job, h.HasEntry stream id job →
      job.maxRetries = D.cfg.queue.redisMaxRetries) := by
  induction h with
  | nil =>
      refine ⟨?_, ?_⟩
      · rintro stream id e ⟨v, ⟨x, hx, -⟩, -⟩
        cases hx
      · rintro stream id job ⟨v, entry, ⟨x, hx, -⟩, -⟩
        cases hx
  | cons e h ih =>
      obtain ⟨hjobs, hentries⟩ := ih hv.1
      have hdelivery : ∀ {t d res}, Processed D d res (Log.own h t) → JobOk D d.envelope :=
        fun hp => hjobs _ _ _ (hv.1.held hp.started).hasJob
      refine ⟨?_, ?_⟩
      · rintro stream id env ⟨v, ⟨x, hx, hev⟩, hp⟩
        rcases List.mem_cons.mp hx with rfl | hx
        · obtain ⟨t, ctx, maxLen, -, horig⟩ := hv.origin hev
          cases horig.of_job hp with
          | new hm hs => exact .new ..
          | copy hproc hexh hs => exact (hdelivery hproc).failed hexh _
          | requeued ho he hj =>
              have hadded := (hv.1.fetched (by rw [ho]; exact List.mem_cons_self ..)).1
              exact .reset (hentries _ _ _ ⟨_, _, hadded, letter_of_parseEntry he, hj⟩)
        · exact hjobs stream id env ⟨v, ⟨x, hx, hev⟩, hp⟩
      · rintro stream id job ⟨v, entry, ⟨x, hx, hev⟩, hp, hj⟩
        rcases List.mem_cons.mp hx with rfl | hx
        · obtain ⟨t, ctx, maxLen, -, horig⟩ := hv.origin hev
          obtain ⟨d, err, clock, hproc, -, rfl, -⟩ := horig.of_entry hp
          cases hj
          exact (hdelivery hproc).max
        · exact hentries stream id job ⟨v, entry, ⟨x, hx, hev⟩, hp, hj⟩

theorem job_ok (hv : Valid D h) {stream : String} {id : StreamID} {e : JobEnvelope}
    (hj : h.HasJob stream id e) : JobOk D e :=
  hv.jobs_ok.1 stream id e hj

/-- Events of which a task logs at most one. -/
theorem once (hv : Valid D h) {K : Ev → Prop}
    {t : Nat} (hK : ∀ o ev, (∀ x ∈ o, x ∈ h.own t) → D.Trace o → D.May o ev → K ev →
      ∀ ev' ∈ o, ¬ K ev') {e e' : Event Ev}
    (he : e ∈ h) (he' : e' ∈ h) (ht : e.tid = some t) (ht' : e'.tid = some t) (hk : K e.ev)
    (hk' : K e'.ev) : e = e' := by
  have hlater : ∀ {a b : Event Ev} {h₁ h₂ : Log}, h = h₁ ++ a :: h₂ → Valid D (a :: h₂) →
      a.tid = some t → b.tid = some t → K a.ev → b ∈ h₂ → ¬ K b.ev := by
    intro a b h₁ h₂ hlog hv' ha hb hka hbm
    obtain ⟨hv₂, -, hmay⟩ := hv'
    rw [ha] at hmay
    refine hK _ _ (fun x hx => ?_) (hv₂.trace t) hmay hka _ (Log.mem_own.mpr ⟨b, hbm, hb, rfl⟩)
    rw [hlog]
    exact Log.own_mono (fun y hy => Log.mem_of_before hy) hx
  rcases hv.order he he' with heq | ⟨_, _, hlog, hv', hm⟩ | ⟨_, _, hlog, hv', hm⟩
  · exact heq
  · exact absurd hk' (hlater hlog hv' ht ht' hk hm)
  · exact absurd hk (hlater hlog hv' ht' ht hk' hm)

theorem delivery_ok (hv : Valid D h) {t : Nat} {d : Delivery} (hd : .started d ∈ h.own t) :
    JobOk D d.envelope :=
  hv.job_ok (hv.held hd).hasJob

end Valid

-- ============================================================================
-- What one delivery logs
-- ============================================================================

/-- A dedup key is not a reclaim lock. -/
theorem dedupKey_ne_reclaimLockKey (j : String) (r p : Int64) :
    dedupKey j r ≠ Worker.reclaimLockKey p := by
  intro h
  have hd : (dedupKey j r).toList.head? = some 'd' := by
    have hdedup : ("dedup:" : String).toList.head? = some 'd' := by decide +kernel
    unfold dedupKey
    rw [String.toList_append, String.toList_append, String.toList_append,
      List.append_assoc, List.append_assoc, List.head?_append, hdedup, Option.some_or]
  have hw : (Worker.reclaimLockKey p).toList.head? = some 'w' := by
    have hlock : ("worker:reclaim:lock:" : String).toList.head? = some 'w' := by decide +kernel
    unfold Worker.reclaimLockKey
    rw [String.toList_append, List.head?_append, hlock, Option.some_or]
  rw [h, hw] at hd
  exact absurd hd (by decide)

namespace Deployment.Trace

variable {D : Deployment} {o : List Ev} {d d' : Delivery} {ev : Ev}

theorem suffix {o₁ : List Ev} (ht : D.Trace (o₁ ++ o)) : D.Trace o := by
  induction o₁ with
  | nil => exact ht
  | cons x o₁ ih => exact ih ht.2

/-- The log of a task before one of its events. -/
theorem split (ht : D.Trace o) (hev : ev ∈ o) :
    ∃ o₁ o₂, o = o₁ ++ ev :: o₂ ∧ D.May o₂ ev ∧ D.Trace o₂ := by
  obtain ⟨o₁, o₂, rfl⟩ := List.append_of_mem hev
  have htail := ht.suffix
  exact ⟨o₁, o₂, rfl, htail.1, htail.2⟩

/-- A delivery is the first thing its task logs. -/
theorem started_before {o₁ o₂ : List Ev} (ht : D.Trace (o₁ ++ ev :: o₂))
    (hd : .started d ∈ o₁ ++ ev :: o₂) (hne : ev ≠ .started d) : .started d ∈ o₂ := by
  rcases List.mem_append.mp hd with hd | hd
  · obtain ⟨a, b, rfl⟩ := List.append_of_mem hd
    rw [List.append_assoc] at ht
    have hmay : b ++ ev :: o₂ = [] := ht.suffix.1
    simp at hmay
  · rcases List.mem_cons.mp hd with hd | hd
    · exact absurd hd.symm hne
    · exact hd

/-- A producer makes its uuids before anything else. -/
theorem not_minted (ht : D.Trace o) (hev : ev ∈ o) (hne : ∀ u, ev ≠ .minted u)
    (hfirst : ∀ o', D.May o' ev → o' = []) (uuid : String) : .minted uuid ∉ o := by
  intro hm
  obtain ⟨o₁, o₂, rfl, hmay, -⟩ := ht.split hev
  rw [hfirst o₂ hmay] at hm ht
  rcases List.mem_append.mp hm with hm | hm
  · obtain ⟨a, b, rfl⟩ := List.append_of_mem hm
    rw [List.append_assoc] at ht
    have hmints : ∀ x ∈ b ++ [ev], ∃ u, x = .minted u := ht.suffix.1
    obtain ⟨u, hu⟩ := hmints ev (by simp)
    exact hne u hu
  · exact hne uuid (List.mem_singleton.mp hm).symm

theorem started_unique (ht : D.Trace o) (hd : .started d ∈ o) (hd' : .started d' ∈ o) :
    d = d' := by
  obtain ⟨o₁, o₂, rfl, hmay, -⟩ := ht.split hd
  by_contra hne
  have hmem := ht.started_before hd' (by simpa using hne)
  rw [show o₂ = [] from hmay] at hmem
  cases hmem

/-- A downstream call is made by a delivery, for its own envelope, after it has
    won the duplicate check. -/
theorem invoked (ht : D.Trace o) {e : JobEnvelope} (hev : .invoked e ∈ o) :
    ∃ d, .started d ∈ o ∧ e = d.envelope ∧
      (D.dedup = true → ∃ now, D.check d (.ok true) now ∈ o) := by
  obtain ⟨o₁, o₂, rfl, ⟨d, rfl, hmay⟩, -⟩ := ht.split hev
  rcases hmay with ⟨-, now, rfl⟩ | ⟨hd, rfl⟩
  · exact ⟨d, by simp, rfl, fun _ => ⟨now, by simp⟩⟩
  · exact ⟨d, by simp, rfl, fun h => by simp [hd] at h⟩

theorem returned (ht : D.Trace o) {e : JobEnvelope} {res : Option String}
    (hev : .returned e res ∈ o) : .invoked e ∈ o := by
  obtain ⟨o₁, o₂, rfl, ⟨o', rfl⟩, -⟩ := ht.split hev
  simp

/-- The key of an attempt is claimed by a delivery of it. -/
theorem claims (ht : D.Trace o) {j : String} {r : Int64} {x : Option Nat} (hev : ev ∈ o)
    (hc : ev.Claims (dedupKey j r) x) :
    ∃ d now, .started d ∈ o ∧ ev = D.check d (.ok true) now ∧ d.envelope.jobID = j ∧
      d.envelope.retryCount = r := by
  obtain ⟨o₁, o₂, rfl, hmay, -⟩ := ht.split hev
  obtain ⟨ctx, value, ttl, now, rfl, -⟩ := hc
  rcases hmay with ⟨-, rfl, d, rfl, hkey, rfl, rfl⟩ | ⟨-, p, hkey⟩
  · obtain ⟨rfl, rfl⟩ := dedupKey_injective hkey
    exact ⟨d, now, by simp, rfl, rfl, rfl⟩
  · exact absurd hkey (dedupKey_ne_reclaimLockKey j r p)

/-- An entry that a delivery adds is the copy or the dead letter of its failed
    attempt. -/
theorem delivery_adds (ht : D.Trace o) {ctx : Ctx} {stream : String} {maxLen : Int64}
    {v : Values} {reply : Except RedisError StreamID} {now : Nat} (hd : .started d ∈ o)
    (hev : .cmd ctx (.xAdd stream maxLen v) reply now ∈ o) :
    ∃ err, (∃ text, envelopeStruct.marshal (d.failed err) = .ok text ∧ ¬ d.Exhausted ∧
        stream = D.stream d.run ∧ v = jobValues text) ∨
      (∃ text clock, dlqEntryStruct.marshal (d.deadLetter err clock) = .ok text ∧
        d.Exhausted ∧ stream = D.dlq.streamName ∧ v = entryValues text) := by
  obtain ⟨o₁, o₂, rfl, hmay, ht₂⟩ := ht.split hev
  have hd₂ := ht.started_before hd (by simp)
  have horig : Origin D o₂ ctx (.xAdd stream maxLen v) := hmay
  generalize hc : Cmd.xAdd stream maxLen v = c at horig
  cases horig with
  | enqueue ho hm htext => exact absurd hd₂ ho.not_started
  | copy hp hx htext =>
      cases hc
      obtain rfl := ht₂.started_unique hd₂ hp.started
      exact ⟨_, Or.inl ⟨_, htext, hx, rfl, rfl⟩⟩
  | bury hp hx htext =>
      cases hc
      obtain rfl := ht₂.started_unique hd₂ hp.started
      exact ⟨_, Or.inr ⟨_, _, htext, hx, rfl, rfl⟩⟩
  | requeue he hj htext => simp [Deployment.fetch] at hd₂

end Deployment.Trace

end LogPipeline.Cluster
