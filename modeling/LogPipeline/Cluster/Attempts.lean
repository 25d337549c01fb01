/-
  LogPipeline.Cluster.Attempts

  Unique outcome and bounded attempts (`unique_outcome`): with the deduplicating
  processor, the downstream processor sees each job with the retry counts
  0, 1, .., k in this order and at most the configured number of times, and the
  job ends in at most one of success and dead letter.

  A dedup key stands for one attempt of one job, and while keys do not expire it
  is set by one delivery only.  Everything an attempt leads to (the downstream
  call, its result, the copy or the dead letter) is logged by that delivery, so
  two events of one attempt are events of one task.
-/

import LogPipeline.Cluster.Faults

namespace LogPipeline.Cluster

open Conc Go Redis Queue Bootstrap

-- ============================================================================
-- The property
-- ============================================================================

/-- The retry count with which the downstream processor was called for the job. -/
def Ev.attempt (j : String) : Ev → Option Int64
  | .invoked e => if e.jobID = j then some e.retryCount else none
  | _ => none

/-- The retry counts of the downstream calls for the job, oldest first. -/
def Log.attempts (h : Log) (j : String) : List Int64 :=
  h.reverse.filterMap fun e => e.ev.attempt j

/-- An entry for the job was added to the dead letter queue. -/
def Ev.Buries (D : Deployment) (ev : Ev) (j : String) : Prop :=
  ∃ x ∈ ev.entryAdded, x.1 = D.dlq.streamName ∧ x.2.2.jobID = j

/-- What the log may show of a job. -/
structure UniqueOutcome (D : Deployment) (h : Log) (j : String) : Prop where
  attempts : ∃ n : Nat, (n : Int) ≤ D.cfg.queue.redisMaxRetries.toInt ∧
    h.attempts j = (List.range n).map Int64.ofNat
  /-- A call that is followed by another one had failed. -/
  failed : ∀ h₁ e h₂, h = h₁ ++ e :: h₂ → e.ev.attempt j ≠ none →
    ∀ x ∈ h₂, ∀ job, x.ev = .invoked job → job.jobID = j →
      ∃ y ∈ h₂, ∃ err, y.tid = x.tid ∧ y.ev = .returned job (some err)
  success : ∀ e ∈ h, ∀ e' ∈ h, e.ev.succeeded = some j → e'.ev.succeeded = some j → e = e'
  letter : ∀ e ∈ h, ∀ e' ∈ h, e.ev.Buries D j → e'.ev.Buries D j → e = e'
  exclusive : ∀ e ∈ h, ∀ e' ∈ h, e.ev.succeeded = some j → ¬ e'.ev.Buries D j

-- ============================================================================
-- The assumptions
-- ============================================================================

/-- Every duplicate check is answered, no dedup key expires and no operator
    requeues. -/
@[reducible] def attemptPolicy (D : Deployment) : Policy (world D) where
  call := fun _ ch o _ => ∀ x ∈ Op.command o, x.2.checks ≠ none → ch.fail = none
  env := fun m s => Move.KeepsKeys s m
  start := fun j _ => Job.isRequeue j = false
  crash := fun _ _ => True

/-- What the guards of `attemptPolicy` say about the log. -/
structure DedupLog (D : Deployment) (h : Log) : Prop where
  claim : ∀ e ∈ h, ∀ e' ∈ h, ∀ j r x x', e.ev.Claims (dedupKey j r) x →
    e'.ev.Claims (dedupKey j r) x' → e = e'
  answered : ChecksAnswered D h

theorem reachable_dedupLog {D : Deployment} {c : Conf (world D)}
    (hc : (attemptPolicy D).Reachable Store.init c) : DedupLog D c.store.log := by
  refine ⟨?_, ?_⟩
  · intro e he e' he' j r x x' hcl hcl'
    exact reachable_claim_unique (fun _ _ h => h) hc he he' hcl hcl'
  · refine reachable_checksAnswered ?_ hc
    intro t ch ctx cmd s hp hcheck
    exact hp (ctx, cmd) rfl hcheck

-- ============================================================================
-- One task for each attempt
-- ============================================================================

section

variable {D : Deployment} {h : Log}

/-- The result of a downstream call. -/
def Ev.IsReturn (ev : Ev) : Prop := ∃ e res, ev = .returned e res

/-- The XADD of an entry. -/
def Ev.IsAdd (ev : Ev) : Prop :=
  ∃ ctx stream maxLen v reply now, ev = .cmd ctx (.xAdd stream maxLen v) reply now

theorem not_isReturn_of_may_invoked {o : List Ev} {e : JobEnvelope} (hmay : D.May o (.invoked e)) :
    ∀ ev ∈ o, ¬ ev.IsReturn := by
  obtain ⟨d, -, ⟨-, now, rfl⟩ | ⟨-, rfl⟩⟩ := hmay
  · rintro ev hev ⟨e, res, rfl⟩
    simp [Deployment.check] at hev
  · rintro ev hev ⟨e, res, rfl⟩
    simp at hev

theorem not_invoked_of_may_invoked {o : List Ev} {e e' : JobEnvelope}
    (hmay : D.May o (.invoked e)) : .invoked e' ∉ o := by
  obtain ⟨d, -, ⟨-, now, rfl⟩ | ⟨-, rfl⟩⟩ := hmay
  · simp [Deployment.check]
  · simp

theorem Valid.return_once (hv : Valid D h) {e e' : Event Ev} {t : Nat} (he : e ∈ h) (he' : e' ∈ h)
    (ht : e.tid = some t) (ht' : e'.tid = some t) (hk : e.ev.IsReturn) (hk' : e'.ev.IsReturn) :
    e = e' := by
  refine hv.once ?_ he he' ht ht' hk hk'
  rintro o ev - htrace hmay ⟨job, res, rfl⟩ ev' hev'
  obtain ⟨o', rfl⟩ := hmay
  rcases List.mem_cons.mp hev' with rfl | hev'
  · rintro ⟨_, _, hev⟩
    cases hev
  · exact not_isReturn_of_may_invoked htrace.1 ev' hev'

/-- What a delivery has logged before it gives the job on. -/
theorem Processed.not_isAdd {d : Delivery} {res : Option String} {o : List Ev}
    (hp : Processed D d res o) : ∀ ev ∈ o, ¬ ev.IsAdd := by
  rintro ev hev ⟨ctx, stream, maxLen, v, reply, now, rfl⟩
  cases hp <;> simp [Deployment.check] at hev

/-- A task that is not a producer adds one entry at most. -/
theorem Valid.add_once (hv : Valid D h) {e e' : Event Ev} {t : Nat}
    (hmint : ∀ uuid, .minted uuid ∉ h.own t) (he : e ∈ h) (he' : e' ∈ h)
    (ht : e.tid = some t) (ht' : e'.tid = some t) (hk : e.ev.IsAdd) (hk' : e'.ev.IsAdd) :
    e = e' := by
  refine hv.once ?_ he he' ht ht' hk hk'
  rintro o ev hsub - hmay ⟨ctx, stream, maxLen, v, reply, now, rfl⟩
  have horig : Origin D o ctx (.xAdd stream maxLen v) := hmay
  cases horig with
  | enqueue ho hm ht => exact absurd (hsub _ hm) (hmint _)
  | copy hp hx ht => exact hp.not_isAdd
  | bury hp hx ht => exact hp.not_isAdd
  | requeue he hj ht =>
      rintro ev' hev' ⟨_, _, _, _, _, _, rfl⟩
      simp [Deployment.fetch] at hev'

/-- Two downstream calls for one attempt are made by one task. -/
theorem Valid.attempt_task (hv : Valid D h)
    (hclaim : ∀ e ∈ h, ∀ e' ∈ h, ∀ j r x x', e.ev.Claims (dedupKey j r) x →
      e'.ev.Claims (dedupKey j r) x' → e = e') (hd : D.dedup = true)
    {t t' : Nat} {job job' : JobEnvelope} (hi : .invoked job ∈ h.own t)
    (hi' : .invoked job' ∈ h.own t') (hj : job.jobID = job'.jobID)
    (hr : job.retryCount = job'.retryCount) : t = t' ∧ job = job' := by
  obtain ⟨d, hs, rfl, hcheck⟩ := (hv.trace t).invoked hi
  obtain ⟨d', hs', rfl, hcheck'⟩ := (hv.trace t').invoked hi'
  obtain ⟨now, hcheck⟩ := hcheck hd
  obtain ⟨now', hcheck'⟩ := hcheck' hd
  obtain ⟨e, he, het, hev⟩ := Log.mem_own.mp hcheck
  obtain ⟨e', he', het', hev'⟩ := Log.mem_own.mp hcheck'
  have hown : e.ev.Claims d.key (expiry now D.cfg.worker.dedupTTL) :=
    ⟨_, _, _, _, hev, rfl⟩
  have hown' : e'.ev.Claims d.key (expiry now' D.cfg.worker.dedupTTL) := by
    rw [Delivery.key, hj, hr]
    exact ⟨_, _, _, _, hev', rfl⟩
  obtain rfl := hclaim e he e' he' _ _ _ _ hown hown'
  obtain rfl : t = t' := by
    rw [het] at het'
    exact Option.some.inj het'
  obtain rfl := (hv.trace t).started_unique hs hs'
  exact ⟨rfl, rfl⟩

-- ============================================================================
-- The chain of attempts
-- ============================================================================

theorem DedupLog.mono {h' : Log} (hl : DedupLog D h') (hsub : ∀ e ∈ h, e ∈ h') : DedupLog D h :=
  ⟨fun e he e' he' => hl.claim e (hsub e he) e' (hsub e' he'),
    hl.answered.mono hsub⟩

/-- A delivery that failed had called the downstream processor. -/
theorem Processed.called {t : Nat} {d : Delivery} {err : String} (ha : ChecksAnswered D h)
    (hd : D.dedup = true) (hp : Processed D d (some err) (h.own t)) :
    .returned d.envelope (some err) ∈ h.own t ∧ .invoked d.envelope ∈ h.own t := by
  generalize ho : h.own t = o at hp
  cases hp with
  | unchecked e now hdd =>
      have hmem : D.check d (.error e) now ∈ h.own t := by
        rw [ho]
        exact List.mem_cons_self ..
      obtain ⟨x, hx, -, hev⟩ := Log.mem_own.mp hmem
      exact absurd hev (ha x hx d e now)
  | fresh now res hdd => exact ⟨by simp, by simp⟩
  | plain res hdd => simp [hdd] at hd

/-- A job entry with a positive retry count is the copy of an attempt that failed before. -/
theorem Valid.copied (hv : Valid D h) {stream : String} {id : StreamID} {job : JobEnvelope}
    (hjob : h.HasJob stream id job) (hpos : 0 < job.retryCount.toInt) :
    ∃ h' t d err, (∀ x ∈ h', x ∈ h) ∧ Valid D h' ∧ Processed D d (some err) (Log.own h' t) ∧
      d.envelope.jobID = job.jobID ∧
      d.envelope.retryCount.toInt + 1 = job.retryCount.toInt := by
  obtain ⟨v, ⟨e, he, hadds⟩, hparse⟩ := hjob
  obtain ⟨h₁, h₂, rfl, hv'⟩ := hv.upTo he
  have hsub : ∀ x ∈ h₂, x ∈ h₁ ++ e :: h₂ := fun x hx => Log.mem_of_before hx
  obtain ⟨t, ctx, maxLen, -, horig⟩ := hv'.origin hadds
  have hzero : ¬ 0 < (0 : Int64).toInt := by decide
  cases horig.of_job hparse with
  | new hm hs => exact absurd hpos hzero
  | @copy d err hp hx hs =>
      exact ⟨h₂, t, d, err, hsub, hv'.1, hp, rfl,
        (toInt_add_one (hv'.1.delivery_ok hp.started).lt).symm⟩
  | requeued ho he hj => exact absurd hpos hzero

theorem Valid.previous (hv : Valid D h) (ha : ChecksAnswered D h) (hd : D.dedup = true)
    {stream : String} {id : StreamID} {job : JobEnvelope} (hjob : h.HasJob stream id job)
    (hpos : 0 < job.retryCount.toInt) :
    ∃ t prev err, .returned prev (some err) ∈ h.own t ∧ .invoked prev ∈ h.own t ∧
      prev.jobID = job.jobID ∧ prev.retryCount.toInt + 1 = job.retryCount.toInt := by
  obtain ⟨h', t, d, err, hsub, -, hp, hj, hr⟩ := hv.copied hjob hpos
  obtain ⟨hret, hinv⟩ := hp.called (ha.mono hsub) hd
  exact ⟨t, d.envelope, err, Log.own_mono hsub hret, Log.own_mono hsub hinv, hj, hr⟩

/-- A downstream call with a positive retry count comes after a failed one. -/
theorem Valid.previous_attempt {e : Event Ev} (hv : Valid D (e :: h)) (ha : ChecksAnswered D h)
    (hd : D.dedup = true) {job : JobEnvelope} (hev : e.ev = .invoked job)
    (hpos : 0 < job.retryCount.toInt) :
    ∃ t prev err, .returned prev (some err) ∈ h.own t ∧ .invoked prev ∈ h.own t ∧
      prev.jobID = job.jobID ∧ prev.retryCount.toInt + 1 = job.retryCount.toInt := by
  obtain ⟨t, -, hmay⟩ := hv.may (by simp [hev])
  rw [hev] at hmay
  obtain ⟨d, rfl, hmay⟩ := hmay
  have hs : .started d ∈ h.own t := by
    rcases hmay with ⟨-, now, ho⟩ | ⟨-, ho⟩
    · rw [ho]
      simp
    · rw [ho]
      simp
  exact hv.1.previous ha hd (hv.1.held hs).hasJob hpos

theorem Log.attempts_cons (e : Event Ev) (h : Log) (j : String) :
    Log.attempts (e :: h) j = Log.attempts h j ++ (e.ev.attempt j).toList := by
  unfold Log.attempts
  rw [List.reverse_cons, List.filterMap_append]
  cases hx : e.ev.attempt j <;> simp [hx]

theorem Ev.attempt_eq_some {ev : Ev} {j : String} {r : Int64} :
    ev.attempt j = some r ↔ ∃ job, ev = .invoked job ∧ job.jobID = j ∧ job.retryCount = r := by
  constructor
  · intro h
    unfold attempt at h
    split at h
    · next job =>
        split at h
        · next hj =>
            cases h
            exact ⟨job, rfl, hj, rfl⟩
        · cases h
    · cases h
  · rintro ⟨job, rfl, rfl, rfl⟩
    simp [attempt]

theorem Log.mem_attempts {t : Nat} {job : JobEnvelope} (hi : .invoked job ∈ h.own t) :
    job.retryCount ∈ h.attempts job.jobID := by
  obtain ⟨e, he, -, hev⟩ := Log.mem_own.mp hi
  refine List.mem_filterMap.mpr ⟨e, List.mem_reverse.mpr he, ?_⟩
  exact Ev.attempt_eq_some.mpr ⟨job, hev, rfl, rfl⟩

theorem Valid.of_mem_attempts (hv : Valid D h) {j : String} {r : Int64} (hr : r ∈ h.attempts j) :
    ∃ t job, .invoked job ∈ h.own t ∧ job.jobID = j ∧ job.retryCount = r := by
  obtain ⟨e, he, hatt⟩ := List.mem_filterMap.mp hr
  obtain ⟨job, hev, hj, hrc⟩ := Ev.attempt_eq_some.mp hatt
  have he := List.mem_reverse.mp he
  obtain ⟨h₁, h₂, -, hv'⟩ := hv.upTo he
  obtain ⟨t, ht, -⟩ := hv'.may (by simp [hev])
  exact ⟨t, job, Log.mem_own.mpr ⟨e, he, ht, hev⟩, hj, hrc⟩

theorem Valid.invoked_ok (hv : Valid D h) {t : Nat} {job : JobEnvelope}
    (hi : .invoked job ∈ h.own t) : JobOk D job := by
  obtain ⟨d, hs, rfl, -⟩ := (hv.trace t).invoked hi
  exact hv.delivery_ok hs

/-- Membership in an initial segment, for counts that do not overflow. -/
theorem mem_range_map {n k : Nat} {r : Int64} (hn : (n : Int) ≤ 2 ^ 63) (hr : r.toInt = k) :
    r ∈ (List.range n).map Int64.ofNat ↔ k < n := by
  rw [List.mem_map]
  constructor
  · rintro ⟨i, hi, rfl⟩
    have hi := List.mem_range.mp hi
    rw [Int64.toInt_ofNat_of_lt (by omega)] at hr
    omega
  · intro hk
    refine ⟨k, List.mem_range.mpr hk, ?_⟩
    rw [← Int64.toInt_inj, Int64.toInt_ofNat_of_lt (by omega), hr]

/-- The retry counts of the downstream calls are 0, 1, .. in this order. -/
theorem Valid.attempts_range (hv : Valid D h) (hl : DedupLog D h) (hd : D.dedup = true)
    (j : String) : ∃ n : Nat, (n : Int) ≤ D.cfg.queue.redisMaxRetries.toInt ∧
      h.attempts j = (List.range n).map Int64.ofNat := by
  have hmax := Int64.toInt_lt D.cfg.queue.redisMaxRetries
  induction h with
  | nil =>
      have hpos := Int64.lt_iff_toInt_lt.mp D.accepted.queue.redisMaxRetries
      have hz : (0 : Int64).toInt = 0 := by decide
      rw [hz] at hpos
      exact ⟨0, Int.le_of_lt hpos, rfl⟩
  | cons e h ih =>
      have hlh : DedupLog D h := hl.mono fun x hx => List.mem_cons_of_mem _ hx
      obtain ⟨n, hn, hatt⟩ := ih hv.1 hlh
      cases hx : e.ev.attempt j with
      | none =>
          refine ⟨n, hn, ?_⟩
          rw [Log.attempts_cons, hx, hatt]
          simp
      | some r =>
          obtain ⟨job, hev, hj, hrc⟩ := Ev.attempt_eq_some.mp hx
          obtain ⟨t, het, hmay⟩ := hv.may (by simp [hev])
          have hinv : .invoked job ∈ Log.own (e :: h) t :=
            Log.mem_own.mpr ⟨e, List.mem_cons_self .., het, hev⟩
          obtain ⟨k, hk, hkint, hkmax⟩ := (hv.invoked_ok hinv).count
          -- this attempt was not made before: its task would have called twice
          have hnew : ¬ k < n := by
            intro hlt
            have hmem : r ∈ Log.attempts h j := by
              rw [hatt]
              exact (mem_range_map (by omega) (by rw [← hrc]; exact hkint)).mpr hlt
            obtain ⟨u, job', hinv', hj', hrc'⟩ := hv.1.of_mem_attempts hmem
            have hinv'' : .invoked job' ∈ Log.own (e :: h) u :=
              Log.own_mono (fun x hx => List.mem_cons_of_mem _ hx) hinv'
            obtain ⟨rfl, rfl⟩ := hv.attempt_task hl.claim hd hinv hinv'' (hj.trans hj'.symm)
              (hrc.trans hrc'.symm)
            rw [hev] at hmay
            exact not_invoked_of_may_invoked hmay hinv'
          -- and the one before it was
          have hprev : k ≤ n := by
            by_contra hlt
            obtain ⟨u, prev, err, -, hpinv, hpj, hpr⟩ :=
              hv.previous_attempt hlh.answered hd hev (by omega)
            have hmem := Log.mem_attempts hpinv
            rw [hpj, hj, hatt] at hmem
            have := (mem_range_map (n := n) (k := k - 1) (r := prev.retryCount) (by omega)
              (by omega)).mp hmem
            omega
          obtain rfl : k = n := by omega
          refine ⟨k + 1, by omega, ?_⟩
          rw [Log.attempts_cons, hx, hatt, List.range_succ, List.map_append, ← hrc, hk]
          rfl

-- ============================================================================
-- Outcomes
-- ============================================================================

/-- A downstream call that is not the last one has failed. -/
theorem Valid.failed_of_later (hv : Valid D h) (hl : DedupLog D h) (hd : D.dedup = true)
    {t u : Nat} {job job' : JobEnvelope} (hi : .invoked job ∈ h.own t)
    (hi' : .invoked job' ∈ h.own u) (hj : job.jobID = job'.jobID)
    (hlt : job.retryCount.toInt < job'.retryCount.toInt) :
    ∃ err, .returned job (some err) ∈ h.own t := by
  have hmax := Int64.toInt_lt D.cfg.queue.redisMaxRetries
  obtain ⟨n, hn, hatt⟩ := hv.attempts_range hl hd job.jobID
  obtain ⟨k, -, hk, -⟩ := (hv.invoked_ok hi).count
  obtain ⟨k', -, hk', -⟩ := (hv.invoked_ok hi').count
  have hmem := Log.mem_attempts hi'
  rw [← hj, hatt] at hmem
  have hkn := (mem_range_map (by omega) hk').mp hmem
  -- so the call with the next count was made, and it came from this one
  have hnext : Int64.ofNat (k + 1) ∈ h.attempts job.jobID := by
    rw [hatt]
    exact List.mem_map_of_mem (List.mem_range.mpr (by omega))
  obtain ⟨w, next, hni, hnj, hnr⟩ := hv.of_mem_attempts hnext
  obtain ⟨z, hz, -, hzev⟩ := Log.mem_own.mp hni
  obtain ⟨h₁, h₂, rfl, hv'⟩ := hv.upTo hz
  have hsub : ∀ x ∈ h₂, x ∈ h₁ ++ z :: h₂ := fun x hx => Log.mem_of_before hx
  have hnint : next.retryCount.toInt = k + 1 := by
    rw [hnr, Int64.toInt_ofNat_of_lt (by omega)]
    omega
  obtain ⟨t', prev, err, hret, hinv, hpj, hpr⟩ :=
    hv'.previous_attempt (hl.answered.mono hsub) hd hzev (by omega)
  have hprc : prev.retryCount = job.retryCount := by
    rw [← Int64.toInt_inj]
    omega
  obtain ⟨rfl, rfl⟩ := hv.attempt_task hl.claim hd (Log.own_mono hsub hinv) hi (hpj.trans hnj) hprc
  exact ⟨err, Log.own_mono hsub hret⟩

theorem Valid.of_returned (hv : Valid D h) {e : Event Ev} {job : JobEnvelope}
    {res : Option String} (he : e ∈ h) (hev : e.ev = .returned job res) :
    ∃ t, e.tid = some t ∧ .invoked job ∈ h.own t := by
  obtain ⟨h₁, h₂, -, hv'⟩ := hv.upTo he
  obtain ⟨t, ht, -⟩ := hv'.may (by simp [hev])
  exact ⟨t, ht, (hv.trace t).returned (Log.mem_own.mpr ⟨e, he, ht, hev⟩)⟩

/-- A task does not return both nil and an error. -/
theorem Valid.not_both_results (hv : Valid D h) {e : Event Ev} {t : Nat} {job job' : JobEnvelope}
    {err : String} (he : e ∈ h) (ht : e.tid = some t) (hev : e.ev = .returned job none) :
    .returned job' (some err) ∉ h.own t := by
  intro hmem
  obtain ⟨y, hy, hyt, hyev⟩ := Log.mem_own.mp hmem
  have heq := hv.return_once he hy ht hyt ⟨_, _, hev⟩ ⟨_, _, hyev⟩
  rw [heq, hyev] at hev
  cases hev

/-- After a success there is no further attempt. -/
theorem Valid.le_of_succeeded (hv : Valid D h) (hl : DedupLog D h) (hd : D.dedup = true)
    {e : Event Ev} {t u : Nat} {job job' : JobEnvelope} (he : e ∈ h) (ht : e.tid = some t)
    (hev : e.ev = .returned job none) (hi' : .invoked job' ∈ h.own u)
    (hj : job.jobID = job'.jobID) : job'.retryCount.toInt ≤ job.retryCount.toInt := by
  by_contra hlt
  have hi := (hv.trace t).returned (Log.mem_own.mpr ⟨e, he, ht, hev⟩)
  obtain ⟨err, hret⟩ := hv.failed_of_later hl hd hi hi' hj (by omega)
  exact hv.not_both_results he ht hev hret

/-- A dead letter is written by the delivery of the last attempt, which failed. -/
theorem Valid.of_buries (hv : Valid D h) (hl : DedupLog D h) (hd : D.dedup = true) {e : Event Ev}
    {j : String} (he : e ∈ h) (hb : e.ev.Buries D j) :
    ∃ t job err, e.tid = some t ∧ e.ev.IsAdd ∧ .returned job (some err) ∈ h.own t ∧
      .invoked job ∈ h.own t ∧ job.jobID = j ∧
      job.retryCount.toInt + 1 = D.cfg.queue.redisMaxRetries.toInt := by
  obtain ⟨⟨stream, id, job⟩, hx, -, hj⟩ := hb
  obtain ⟨v, entry, hadds, hp, hdata⟩ := Ev.entryAdded_eq_some.mp hx
  obtain ⟨h₁, h₂, rfl, hv'⟩ := hv.upTo he
  have hsub : ∀ x ∈ h₂, x ∈ h₁ ++ e :: h₂ := fun x hx => Log.mem_of_before hx
  obtain ⟨t, ctx, maxLen, ht, horig⟩ := hv'.origin hadds
  obtain ⟨d, err, clock, hproc, hexh, rfl, -⟩ := horig.of_entry hp
  cases hdata
  obtain ⟨hret, hinv⟩ := hproc.called (hl.answered.mono hsub) hd
  have hok := hv'.1.delivery_ok hproc.started
  have hlt := Int64.lt_iff_toInt_lt.mp hok.lt
  have hge := Int64.le_iff_toInt_le.mp hexh
  rw [toInt_add_one hok.lt] at hge
  rw [hok.max] at hlt hge
  obtain ⟨ctx', maxLen', now, hev⟩ := hadds
  exact ⟨t, d.envelope, err, ht, ⟨_, _, _, _, _, _, hev⟩, Log.own_mono hsub hret,
    Log.own_mono hsub hinv, hj, by omega⟩

theorem Valid.failed_before {e x : Event Ev} (hv : Valid D (e :: h)) (hl : DedupLog D (e :: h))
    (hd : D.dedup = true) {job job' : JobEnvelope} (hev : e.ev = .invoked job') (hx : x ∈ h)
    (hxev : x.ev = .invoked job) (hj : job.jobID = job'.jobID) :
    ∃ y ∈ h, ∃ err, y.tid = x.tid ∧ y.ev = .returned job (some err) := by
  obtain ⟨t, het, hmay⟩ := hv.may (by simp [hev])
  rw [hev] at hmay
  obtain ⟨h₁, h₂, -, hvx⟩ := hv.1.upTo hx
  obtain ⟨u, hxt, -⟩ := hvx.may (by simp [hxev])
  have hix : .invoked job ∈ Log.own (e :: h) u :=
    Log.mem_own.mpr ⟨x, List.mem_cons_of_mem _ hx, hxt, hxev⟩
  have hie : .invoked job' ∈ Log.own (e :: h) t :=
    Log.mem_own.mpr ⟨e, List.mem_cons_self .., het, hev⟩
  -- an event of the calling task itself is one it had logged before the call
  have hbefore : ∀ {ev : Ev} {w : Nat}, ev ∈ Log.own (e :: h) w → ev ≠ .invoked job' →
      ∃ y ∈ h, y.tid = some w ∧ y.ev = ev := by
    intro ev w hmem hne
    obtain ⟨y, hy, hyt, hyev⟩ := Log.mem_own.mp hmem
    rcases List.mem_cons.mp hy with rfl | hy
    · exact absurd (hyev.symm.trans hev) hne
    · exact ⟨y, hy, hyt, hyev⟩
  rcases lt_trichotomy job.retryCount.toInt job'.retryCount.toInt with hlt | heq | hgt
  · obtain ⟨err, hret⟩ := hv.failed_of_later hl hd hix hie hj hlt
    obtain ⟨y, hy, hyt, hyev⟩ := hbefore hret (by simp)
    exact ⟨y, hy, err, hyt.trans hxt.symm, hyev⟩
  · exfalso
    obtain ⟨rfl, rfl⟩ := hv.attempt_task hl.claim hd hix hie hj (Int64.toInt_inj.mp heq)
    exact not_invoked_of_may_invoked hmay (Log.mem_own.mpr ⟨x, hx, hxt, hxev⟩)
  · exfalso
    obtain ⟨err, hret⟩ := hv.failed_of_later hl hd hie hix hj.symm hgt
    obtain ⟨y, hy, hyt, hyev⟩ := hbefore hret (by simp)
    exact not_isReturn_of_may_invoked hmay _ (Log.mem_own.mpr ⟨y, hy, hyt, hyev⟩) ⟨_, _, rfl⟩

/-- Bounded attempts in order, and one outcome, for every job in every run. -/
theorem unique_outcome (hd : D.dedup = true) {c : Conf (world D)}
    (hc : (attemptPolicy D).Reachable Store.init c) (j : String) :
    UniqueOutcome D c.store.log j := by
  have hv := (reachable_valid hc).1
  have hl := reachable_dedupLog hc
  refine ⟨hv.attempts_range hl hd j, ?_, ?_, ?_, ?_⟩
  · intro h₁ e h₂ hlog hatt x hx job hxev hj
    rw [hlog] at hv hl
    obtain ⟨r, hr⟩ := Option.ne_none_iff_exists'.mp hatt
    obtain ⟨job', hev, hj', -⟩ := Ev.attempt_eq_some.mp hr
    exact hv.suffix.failed_before (hl.mono fun y hy => List.mem_append_right _ hy) hd hev hx hxev
      (hj.trans hj'.symm)
  · intro e he e' he' hs hs'
    obtain ⟨job, hev, hj⟩ := Ev.succeeded_eq_some.mp hs
    obtain ⟨job', hev', hj'⟩ := Ev.succeeded_eq_some.mp hs'
    obtain ⟨t, ht, hi⟩ := hv.of_returned he hev
    obtain ⟨t', ht', hi'⟩ := hv.of_returned he' hev'
    have hjj := hj.trans hj'.symm
    have h1 := hv.le_of_succeeded hl hd he ht hev hi' hjj
    have h2 := hv.le_of_succeeded hl hd he' ht' hev' hi hjj.symm
    obtain ⟨rfl, -⟩ := hv.attempt_task hl.claim hd hi hi' hjj (Int64.toInt_inj.mp (by omega))
    exact hv.return_once he he' ht ht' ⟨_, _, hev⟩ ⟨_, _, hev'⟩
  · intro e he e' he' hb hb'
    obtain ⟨t, job, err, ht, hadd, -, hi, hj, hr⟩ := hv.of_buries hl hd he hb
    obtain ⟨t', job', err', ht', hadd', -, hi', hj', hr'⟩ := hv.of_buries hl hd he' hb'
    obtain ⟨rfl, -⟩ := hv.attempt_task hl.claim hd hi hi' (hj.trans hj'.symm)
      (Int64.toInt_inj.mp (by omega))
    obtain ⟨d, hstarted, -⟩ := (hv.trace t).invoked hi
    have hmint := (hv.trace t).not_minted hstarted (by simp) fun _ hmay => hmay
    exact hv.add_once hmint he he' ht ht' hadd hadd'
  · intro e he e' he' hs hb
    obtain ⟨job, hev, hj⟩ := Ev.succeeded_eq_some.mp hs
    obtain ⟨t, ht, hi⟩ := hv.of_returned he hev
    obtain ⟨t', job', err, -, -, hret, hi', hj', hr'⟩ := hv.of_buries hl hd he' hb
    have hjj := hj.trans hj'.symm
    -- the success is not before the last attempt, and no attempt is after that
    have h1 := hv.le_of_succeeded hl hd he ht hev hi' hjj
    obtain ⟨k, -, hk, hkmax⟩ := (hv.invoked_ok hi).count
    obtain ⟨rfl, rfl⟩ := hv.attempt_task hl.claim hd hi hi' hjj (Int64.toInt_inj.mp (by omega))
    exact hv.not_both_results he ht hev hret

end

/-- A job that fails once and then succeeds; the XACK of the first message is lost
    and the message is delivered again. -/
theorem unique_outcome_redelivery : ∃ c,
    (attemptPolicy (.ofDefaults true)).Reachable Store.init c ∧
    c.store.log.attempts "j" = [0, 1] ∧ UniqueOutcome (.ofDefaults true) c.store.log "j" := by
  obtain ⟨c, hc, hatt⟩ : ∃ c, (attemptPolicy (.ofDefaults true)).Reachable Store.init c ∧
      c.store.log.attempts "j" = [0, 1] := Policy.exists_reachable
    ([Action.start Job.setupPartitions] ++ steps 0 3 ++
      [Action.start (Job.enqueue { LogEvent.zero with service := "a" })] ++
      steps 1 5 { uuid := "j", id := .of 1 0 } ++ [Action.start (Job.poll 0 1)] ++ steps 2 5 ++
      [Action.start (Job.process 0)] ++ steps 3 5 { result := some "timeout", id := .of 2 0 } ++
      steps 3 4 { fail := some "connection reset" } ++
      [Action.start (Job.poll 0 1)] ++ steps 4 5 ++ [Action.start (Job.process 0)] ++ steps 5 8 ++
      [Action.env (Move.tick 60000), Action.start (Job.reclaim 1 1 0)] ++ steps 6 5 ++
      [Action.start (Job.process 0)] ++ steps 7 6)
    (by decide +kernel) (by decide +kernel)
  exact ⟨c, hc, hatt, unique_outcome rfl hc "j"⟩

end LogPipeline.Cluster
