/-
  LogPipeline.Cluster.LostChecks

  Duplicate checks that fail.

  `DeduplicatingProcessor` returns the error of its SETNX as the error of the attempt, so
  a lost check makes `Retry` re-enqueue or bury a job whatever became of the attempt.  If
  for each attempt either all checks are lost or none is, a job for which the downstream
  processor has returned nil stays settled (`settled_stays`).  A check that is lost after
  the attempt succeeded, when the message is delivered again because its XACK was lost,
  makes the job run once more (`settled_redone`).
-/

import LogPipeline.Cluster.AckSafety
import LogPipeline.Cluster.Attempts

namespace LogPipeline.Cluster

open Conc Go Redis Queue Bootstrap

-- ============================================================================
-- The property
-- ============================================================================

/-- After a downstream success for a job, there is no downstream call and no dead letter
    for it. -/
def SettledStays (D : Deployment) (h : Log) : Prop :=
  ∀ h₁ e h₂ j, h = h₁ ++ e :: h₂ → (∃ x ∈ h₂, x.ev.succeeded = some j) →
    e.ev.attempt j = none ∧ ¬ e.ev.Buries D j

/-- The key of a duplicate check that returned an error. -/
def Ev.lost : Ev → Option String
  | .cmd _ (.setNX key value ttl) (.error _) _ => (Cmd.setNX key value ttl).checks
  | _ => none

def Cmd.isAck : Cmd → Bool
  | .xAck .. => true
  | _ => false

/-- Duplicate checks and XACKs may fail, and processes may crash.  No dedup key expires and
    no operator requeues. -/
@[reducible] def lostPolicy (D : Deployment) : Policy (world D) where
  call := fun _ ch o _ => ∀ x ∈ Op.command o,
    ch.fail = none ∨ x.2.checks ≠ none ∨ x.2.isAck = true
  env := (attemptPolicy D).env
  start := (attemptPolicy D).start
  crash := fun _ _ => True

/-- The check of the key fails only if the key was not set, and is answered only if no check
    of it has failed. -/
def Agrees (ch : Choice) (s : Store) (key : String) : Prop :=
  (ch.fail ≠ none → ∀ e ∈ s.log, e.ev.claimed ≠ some key) ∧
  (ch.fail = none → ∀ e ∈ s.log, e.ev.lost ≠ some key)

instance (ch : Choice) (s : Store) (key : String) : Decidable (Agrees ch s key) :=
  inferInstanceAs (Decidable (_ ∧ _))

/-- Any command may fail, except the check of a key that is set; and no check of a key is
    answered after one has failed.  No dedup key expires and no operator requeues. -/
@[reducible] def agreedPolicy (D : Deployment) : Policy (world D) where
  call := fun _ ch o s => ∀ x ∈ Op.command o, ∀ key ∈ x.2.checks, Agrees ch s key
  env := (attemptPolicy D).env
  start := (attemptPolicy D).start
  crash := fun _ _ => True

-- ============================================================================
-- What the policy says about the log
-- ============================================================================

/-- Each attempt is claimed once, and not if a check of it was lost. -/
structure AgreedLog (D : Deployment) (h : Log) : Prop where
  claim : ∀ e ∈ h, ∀ e' ∈ h, ∀ j r x x', e.ev.Claims (dedupKey j r) x →
    e'.ev.Claims (dedupKey j r) x' → e = e'
  agreed : ∀ e ∈ h, ∀ e' ∈ h, ∀ d d' err now now', e.ev = D.check d (.ok true) now →
    e'.ev = D.check d' (.error err) now' → d.key ≠ d'.key

section

variable {D : Deployment} {h : Log}

theorem AgreedLog.mono {h' : Log} (ha : AgreedLog D h') (hsub : ∀ e ∈ h, e ∈ h') :
    AgreedLog D h :=
  ⟨fun e he e' he' => ha.claim e (hsub e he) e' (hsub e' he'),
    fun e he e' he' => ha.agreed e (hsub e he) e' (hsub e' he')⟩

theorem lost_check (d : Delivery) (err : RedisError) (now : Nat) :
    (D.check d (.error err) now).lost = some d.key :=
  checks_dedupKey _ _ "1" D.cfg.worker.dedupTTL

theorem claimed_check (d : Delivery) (now : Nat) :
    (D.check d (.ok true) now).claimed = some d.key := rfl

theorem reachable_agreedLog {c : Conf (world D)}
    (hc : (agreedPolicy D).Reachable Store.init c) : AgreedLog D c.store.log := by
  refine ⟨?_, ?_⟩
  · intro e he e' he' j r x x' hcl hcl'
    exact reachable_claim_unique (fun _ _ h => h) hc he he' hcl hcl'
  intro e he e' he' d d' err now now' hev hev' hkey
  rcases (reachable_valid hc).1.order he he' with
    heq | ⟨h₁, h₂, hlog, -, hm⟩ | ⟨h₁, h₂, hlog, -, hm⟩
  · rw [heq, hev'] at hev
    have hnone : none = some d.key := congrArg Ev.claimed hev
    cases hnone
  · -- the check was answered after one had been lost
    refine reachable_cmd (G := fun h ev => ev = D.check d (.ok true) now →
      ∀ x ∈ h, x.ev.lost ≠ some d.key) ?_ hc hlog ⟨_, _, _, _, hev⟩ hev e' hm ?_
    · intro x t ch ctx cmd reply s₁ _ hp hans _ hev
      cases hev
      refine (hp _ rfl d.key (checks_dedupKey ..)).2 ?_
      rcases answer_cases hans with ⟨-, hr, -⟩ | ⟨-, msg, -, hr, -⟩ | ⟨-, hfail, -⟩
      · cases hr
      · cases hr
      · exact hfail
    · rw [hev', lost_check, hkey]
  · -- the check was lost after one had set the key
    refine reachable_cmd (G := fun h ev => ev = D.check d' (.error err) now' →
      ∀ x ∈ h, x.ev.claimed ≠ some d'.key) ?_ hc hlog ⟨_, _, _, _, hev'⟩ hev' e hm ?_
    · intro x t ch ctx cmd reply s₁ _ hp hans _ hev
      cases hev
      exact (hp _ rfl d'.key (checks_dedupKey ..)).1 (check_fail hans)
    · rw [hev, claimed_check, hkey]

-- ============================================================================
-- Failed attempts
-- ============================================================================

/-- The attempt failed downstream, or a check of it was lost. -/
inductive FailedAttempt (D : Deployment) (h : Log) : String → Int64 → Prop
  | returned {t : Nat} {job : JobEnvelope} {err : String} (hi : .invoked job ∈ h.own t)
      (hr : .returned job (some err) ∈ h.own t) : FailedAttempt D h job.jobID job.retryCount
  | unchecked {t : Nat} {d : Delivery} {err : RedisError} {now : Nat}
      (hc : D.check d (.error err) now ∈ h.own t) :
      FailedAttempt D h d.envelope.jobID d.envelope.retryCount

theorem FailedAttempt.mono {h' : Log} {j : String} {r : Int64} (hf : FailedAttempt D h j r)
    (hsub : ∀ e ∈ h, e ∈ h') : FailedAttempt D h' j r := by
  cases hf with
  | returned hi hr => exact .returned (Log.own_mono hsub hi) (Log.own_mono hsub hr)
  | unchecked hc => exact .unchecked (Log.own_mono hsub hc)

/-- A delivery that is retried is one of a failed attempt. -/
theorem Processed.failedAttempt {t : Nat} {d : Delivery} {err : String} (hd : D.dedup = true)
    (hp : Processed D d (some err) (h.own t)) :
    FailedAttempt D h d.envelope.jobID d.envelope.retryCount := by
  generalize ho : h.own t = o at hp
  cases hp with
  | unchecked e now hdd =>
      apply FailedAttempt.unchecked
      rw [ho]
      exact List.mem_cons_self ..
  | fresh now res hdd =>
      apply FailedAttempt.returned
      · rw [ho]
        exact List.mem_cons_of_mem _ (List.mem_cons_self ..)
      · rw [ho]
        exact List.mem_cons_self ..
  | plain res hdd => simp [hdd] at hd

/-- Before an attempt is queued all smaller ones have failed, by induction on the number
    of copies between them. -/
theorem Valid.failed_below (hv : Valid D h) (hd : D.dedup = true) {stream : String}
    {id : StreamID} {job : JobEnvelope} (hjob : h.HasJob stream id job) {r : Int64}
    (h0 : 0 ≤ r.toInt) (hlt : r.toInt < job.retryCount.toInt) :
    FailedAttempt D h job.jobID r := by
  obtain ⟨n, hn⟩ : ∃ n : Nat, job.retryCount.toInt = r.toInt + 1 + n :=
    ⟨(job.retryCount.toInt - r.toInt - 1).toNat, by omega⟩
  induction n generalizing h stream id job with
  | zero =>
      obtain ⟨h', t, d, err, hsub, hv', hp, hj, hr⟩ := hv.copied hjob (by omega)
      have hrc : d.envelope.retryCount = r := Int64.toInt_inj.mp (by omega)
      have hf := (hp.failedAttempt hd).mono hsub
      rw [hj, hrc] at hf
      exact hf
  | succ n ih =>
      obtain ⟨h', t, d, err, hsub, hv', hp, hj, hr⟩ := hv.copied hjob (by omega)
      have hf := (ih hv' (hv'.held hp.started).hasJob (by omega) (by omega)).mono hsub
      rw [hj] at hf
      exact hf

/-- A downstream call is made after a check that was answered. -/
theorem Valid.not_lost (hv : Valid D h) (ha : AgreedLog D h) (hd : D.dedup = true) {t u : Nat}
    {job : JobEnvelope} {d : Delivery} {err : RedisError} {now : Nat}
    (hi : .invoked job ∈ h.own t) (hj : d.envelope.jobID = job.jobID)
    (hr : d.envelope.retryCount = job.retryCount) : D.check d (.error err) now ∉ h.own u := by
  intro hlost
  obtain ⟨d', -, rfl, hcheck⟩ := (hv.trace t).invoked hi
  obtain ⟨now', hcheck⟩ := hcheck hd
  obtain ⟨e, he, -, hev⟩ := Log.mem_own.mp hcheck
  obtain ⟨e', he', -, hev'⟩ := Log.mem_own.mp hlost
  apply ha.agreed e he e' he' d' d err now' now hev hev'
  rw [Delivery.key, Delivery.key, hj, hr]

/-- An attempt that succeeded did not fail as well. -/
theorem Valid.not_failed_of_succeeded (hv : Valid D h) (ha : AgreedLog D h)
    (hd : D.dedup = true) {x : Event Ev} {job : JobEnvelope} (hx : x ∈ h)
    (hev : x.ev = .returned job none) : ¬ FailedAttempt D h job.jobID job.retryCount := by
  intro hf
  obtain ⟨t, ht, hi⟩ := hv.of_returned hx hev
  generalize hj : job.jobID = j at hf
  generalize hr : job.retryCount = r at hf
  cases hf with
  | @returned u job' err hi' hret =>
      obtain ⟨rfl, rfl⟩ := hv.attempt_task ha.claim hd hi hi' hj hr
      exact hv.not_both_results hx ht hev hret
  | unchecked hc => exact hv.not_lost ha hd hi hj.symm hr.symm hc

/-- An attempt that is made now had not failed before. -/
theorem Valid.not_failed_of_invoked {e : Event Ev} (hv : Valid D (e :: h))
    (ha : AgreedLog D (e :: h)) (hd : D.dedup = true) {job : JobEnvelope}
    (hev : e.ev = .invoked job) : ¬ FailedAttempt D h job.jobID job.retryCount := by
  intro hf
  have hsub : ∀ x ∈ h, x ∈ e :: h := fun x hx => List.mem_cons_of_mem _ hx
  obtain ⟨t, het, hmay⟩ := hv.may (by simp [hev])
  rw [hev] at hmay
  have hi : .invoked job ∈ Log.own (e :: h) t :=
    Log.mem_own.mpr ⟨e, List.mem_cons_self .., het, hev⟩
  generalize hj : job.jobID = j at hf
  generalize hr : job.retryCount = r at hf
  cases hf with
  | @returned u job' err hi' hret =>
      obtain ⟨rfl, rfl⟩ := hv.attempt_task ha.claim hd hi (Log.own_mono hsub hi') hj hr
      exact not_invoked_of_may_invoked hmay hi'
  | unchecked hc => exact hv.not_lost ha hd hi hj.symm hr.symm (Log.own_mono hsub hc)

-- ============================================================================
-- Settled jobs
-- ============================================================================

theorem Valid.not_invoked_after {e x : Event Ev} (hv : Valid D (e :: h))
    (ha : AgreedLog D (e :: h)) (hd : D.dedup = true) {job job' : JobEnvelope} (hx : x ∈ h)
    (hxev : x.ev = .returned job none) (hj : job'.jobID = job.jobID) : e.ev ≠ .invoked job' := by
  intro hev
  have hsub : ∀ x ∈ h, x ∈ e :: h := fun x hx => List.mem_cons_of_mem _ hx
  obtain ⟨t, ht, hi⟩ := hv.1.of_returned hx hxev
  obtain ⟨t', het, hmay⟩ := hv.may (by simp [hev])
  have hi' : .invoked job' ∈ Log.own (e :: h) t' :=
    Log.mem_own.mpr ⟨e, List.mem_cons_self .., het, hev⟩
  obtain ⟨k, -, hk, -⟩ := (hv.1.invoked_ok hi).count
  obtain ⟨k', -, hk', -⟩ := (hv.invoked_ok hi').count
  rcases lt_trichotomy job.retryCount.toInt job'.retryCount.toInt with hlt | heq | hgt
  · -- a later attempt: the one that succeeded must have failed
    obtain ⟨d, hs, rfl, -⟩ := (hv.trace t').invoked hi'
    have hf := hv.failed_below hd (hv.held hs).hasJob (by omega) hlt
    rw [hj] at hf
    exact hv.not_failed_of_succeeded ha hd (hsub x hx) hxev hf
  · obtain ⟨rfl, rfl⟩ := hv.attempt_task ha.claim hd (Log.own_mono hsub hi) hi' hj.symm
      (Int64.toInt_inj.mp heq)
    rw [hev] at hmay
    exact not_invoked_of_may_invoked hmay hi
  · -- an earlier attempt: it must have failed before the success
    obtain ⟨d, hs, rfl, -⟩ := (hv.1.trace t).invoked hi
    have hf := hv.1.failed_below hd (hv.1.held hs).hasJob (by omega) hgt
    rw [← hj] at hf
    exact hv.not_failed_of_invoked ha hd hev hf

theorem Valid.not_buried_after {e x : Event Ev} (hv : Valid D (e :: h))
    (ha : AgreedLog D h) (hd : D.dedup = true) {job : JobEnvelope} (hx : x ∈ h)
    (hxev : x.ev = .returned job none) : ¬ e.ev.Buries D job.jobID := by
  rintro ⟨⟨stream, id, dead⟩, hadded, -, hj⟩
  obtain ⟨v, entry, hadds, hp, hdata⟩ := Ev.entryAdded_eq_some.mp hadded
  obtain ⟨t, ctx, maxLen, -, horig⟩ := hv.origin hadds
  obtain ⟨d, err, clock, hproc, hexh, rfl, -⟩ := horig.of_entry hp
  cases hdata
  have hj : d.envelope.jobID = job.jobID := hj
  have hok := hv.1.delivery_ok hproc.started
  have hge := Int64.le_iff_toInt_le.mp hexh
  rw [toInt_add_one hok.lt, hok.max] at hge
  obtain ⟨u, -, hi⟩ := hv.1.of_returned hx hxev
  obtain ⟨k, -, hk, hkmax⟩ := (hv.1.invoked_ok hi).count
  apply hv.1.not_failed_of_succeeded ha hd hx hxev
  rcases lt_or_eq_of_le (show job.retryCount.toInt ≤ d.envelope.retryCount.toInt by omega) with
    hlt | heq
  · have hf := hv.1.failed_below hd (hv.1.held hproc.started).hasJob (by omega) hlt
    rw [hj] at hf
    exact hf
  · have hf := hproc.failedAttempt hd
    rw [hj, ← Int64.toInt_inj.mp heq] at hf
    exact hf

/-- A settled job stays settled in every run in which the checks of an attempt agree. -/
theorem settled_stays (hd : D.dedup = true) {c : Conf (world D)}
    (hc : (agreedPolicy D).Reachable Store.init c) : SettledStays D c.store.log := by
  have hv := (reachable_valid hc).1
  have ha := reachable_agreedLog hc
  rintro h₁ e h₂ j hlog ⟨x, hx, hs⟩
  rw [hlog] at hv ha
  have hv := hv.suffix
  have ha : AgreedLog D (e :: h₂) := ha.mono fun y hy => List.mem_append_right _ hy
  obtain ⟨job, hxev, rfl⟩ := Ev.succeeded_eq_some.mp hs
  refine ⟨?_, ?_⟩
  · cases hatt : e.ev.attempt job.jobID with
    | none => rfl
    | some r =>
        obtain ⟨job', hev, hj, -⟩ := Ev.attempt_eq_some.mp hatt
        exact absurd hev (hv.not_invoked_after ha hd hx hxev hj)
  · exact hv.not_buried_after (ha.mono fun y hy => List.mem_cons_of_mem _ hy) hd hx hxev

end

/-- The check of the first attempt and the XACK of the second one are lost; the message of
    the second one is delivered again. -/
theorem settled_stays_redelivery : ∃ c,
    (agreedPolicy (.ofDefaults true)).Reachable Store.init c ∧
    (∃ e ∈ c.store.log, e.ev.lost ≠ none) ∧ (∃ e ∈ c.store.log, e.ev.succeeded = some "j") ∧
    SettledStays (.ofDefaults true) c.store.log := by
  obtain ⟨c, hc, hlost, hdone⟩ : ∃ c, (agreedPolicy (.ofDefaults true)).Reachable Store.init c ∧
      (∃ e ∈ c.store.log, e.ev.lost ≠ none) ∧ ∃ e ∈ c.store.log, e.ev.succeeded = some "j" :=
    Policy.exists_reachable
      (oneJob _ ++ [Action.start (Job.process 0)] ++ steps 3 2 { fail := some "i/o timeout" } ++
        steps 3 5 { id := .of 2 0 } ++ [Action.start (Job.poll 0 1)] ++ steps 4 5 ++
        [Action.start (Job.process 0)] ++ steps 5 4 ++ steps 5 4 { fail := some "i/o timeout" } ++
        [Action.env (Move.tick 60000), Action.start (Job.reclaim 1 1 0)] ++ steps 6 5 ++
        [Action.start (Job.process 0)] ++ steps 7 6)
      (by decide +kernel) (by decide +kernel)
  exact ⟨c, hc, hlost, hdone, settled_stays rfl hc⟩

/-- The XACK after a success is lost, and so is the check of the redelivery: the copy that
    `Retry` makes is processed again. -/
theorem settled_redone : ∃ (D : Deployment) (c : Conf (world D)), D.dedup = true ∧
    (lostPolicy D).Reachable Store.init c ∧ ¬ SettledStays D c.store.log := by
  obtain ⟨c, hc, e, h, hlog, hatt, hdone⟩ : ∃ c,
      (lostPolicy (.ofDefaults true)).Reachable Store.init c ∧
      ∃ e h, c.store.log = e :: h ∧ e.ev.attempt "j" = some 1 ∧
        ∃ x ∈ h, x.ev.succeeded = some "j" := by
    obtain ⟨c, hc, hhead, hdone⟩ : ∃ c, (lostPolicy (.ofDefaults true)).Reachable Store.init c ∧
        (∃ e ∈ c.store.log.head?, e.ev.attempt "j" = some 1) ∧
        ∃ x ∈ c.store.log.tail, x.ev.succeeded = some "j" :=
      Policy.exists_reachable
        (oneJob _ ++ [Action.start (Job.process 0)] ++ steps 3 4 ++
          steps 3 4 { fail := some "i/o timeout" } ++
          [Action.env (Move.tick 60000), Action.start (Job.reclaim 1 1 0)] ++ steps 4 5 ++
          [Action.start (Job.process 0)] ++ steps 5 2 { fail := some "i/o timeout" } ++
          steps 5 5 { id := .of 2 0 } ++ [Action.start (Job.poll 0 1)] ++ steps 6 5 ++
          [Action.start (Job.process 0)] ++ steps 7 3)
        (by decide +kernel) (by decide +kernel)
    obtain ⟨e, he, hatt⟩ := hhead
    exact ⟨c, hc, e, c.store.log.tail, List.eq_cons_of_mem_head? he, hatt, hdone⟩
  refine ⟨.ofDefaults true, c, rfl, hc, fun hsettled => ?_⟩
  have hnone := (hsettled [] e h "j" hlog hdone).1
  rw [hatt] at hnone
  cases hnone

end LogPipeline.Cluster
