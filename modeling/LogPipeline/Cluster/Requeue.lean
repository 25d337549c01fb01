/-
  LogPipeline.Cluster.Requeue

  Jobs that an operator moves back from the dead letter queue.

  `DLQ.Requeue` resets the retry count, so the message carries the dedup key of
  the job's first attempt again.  A delivery of the message calls the downstream
  processor exactly if its duplicate check is answered and every earlier claim of
  that key has expired (`requeued_invoked_iff`).  Before that the message is taken
  for a duplicate and acknowledged without work (`requeued_skipped`).
-/

import LogPipeline.Cluster.Attempts

namespace LogPipeline.Cluster

open Conc Go Redis Queue Bootstrap

-- ============================================================================
-- The property
-- ============================================================================

/-- A call of `DLQ.Requeue` returned nil; the stream it moved the job to. -/
def Ev.requeuedTo : Ev → Option String
  | .noted (.requeued _ stream) => some stream
  | _ => none

/-- The message was put on the stream by a successful `DLQ.Requeue`. -/
def Log.Requeued (h : Log) (stream : String) (id : StreamID) : Prop :=
  ∃ e ∈ h, ∃ t ∈ e.tid, e.ev.requeuedTo = some stream ∧
    ∃ ev ∈ h.own t, ∃ x ∈ ev.jobAdded, x.1 = stream ∧ x.2.1 = id

instance (h : Log) (stream : String) (id : StreamID) : Decidable (h.Requeued stream id) :=
  inferInstanceAs (Decidable (∃ e ∈ h, _))

/-- A call of the downstream processor. -/
def Ev.isInvoked : Ev → Bool
  | .invoked _ => true
  | _ => false

/-- The task has called the downstream processor. -/
def Log.Invokes (h : Log) (t : Nat) : Prop := ∃ ev ∈ h.own t, ev.isInvoked = true

instance (h : Log) (t : Nat) : Decidable (h.Invokes t) :=
  inferInstanceAs (Decidable (∃ ev ∈ h.own t, _))

/-- Every claim of the key before position `n` had expired at the time `now`. -/
def Log.Expired (h : Log) (key : String) (n now : Nat) : Prop :=
  ∀ x ∈ h, x.seq < n → ∀ y, x.ev.Claims key y → ∃ z, y = some z ∧ z ≤ now

-- ============================================================================
-- The requeued message
-- ============================================================================

section

variable {D : Deployment} {h : Log}

/-- The requeued message carries the retry count zero. -/
theorem Valid.requeued_zero (hv : Valid D h) {stream : String} {id : StreamID}
    {job : JobEnvelope} (hr : h.Requeued stream id) (hjob : h.HasJob stream id job) :
    job.retryCount = 0 := by
  obtain ⟨e, he, t, het, hnote, ev, hev, ⟨stream', id', job'⟩, hx, rfl, rfl⟩ := hr
  obtain ⟨v, hadds, hparse⟩ := Ev.jobAdded_eq_some.mp hx
  obtain ⟨dlqID, hnoted⟩ : ∃ dlqID, e.ev = .noted (.requeued dlqID stream') := by
    unfold Ev.requeuedTo at hnote
    split at hnote
    · next heq =>
        cases hnote
        exact ⟨_, heq⟩
    · cases hnote
  have hmem : .noted (.requeued dlqID stream') ∈ h.own t :=
    Log.mem_own.mpr ⟨e, he, het, hnoted⟩
  obtain ⟨o₁, o₂, hown, hmay, htrace⟩ := (hv.trace t).split hmem
  obtain ⟨reply, n, maxLen, text, new, n', msg, rest, now, rfl⟩ := hmay
  -- the task has added one entry, after its look-up
  have horig : Origin D [D.fetch dlqID (.ok (msg :: rest)) now] .background
      (.xAdd stream' maxLen (jobValues text)) := htrace.2.1
  obtain ⟨entry, orig, text', -, -, hmarshal, htext⟩ := horig.of_fetch
  have hreset := job_jobValues hmarshal
  rw [← htext] at hreset
  obtain ⟨x, hxm, hxt, hxev⟩ := Log.mem_own.mp hev
  have hadd : .cmd .background (.xAdd stream' maxLen (jobValues text)) (.ok new) n' ∈ h.own t := by
    rw [hown]
    simp
  obtain ⟨y, hym, hyt, hyev⟩ := Log.mem_own.mp hadd
  have hmint : ∀ uuid, .minted uuid ∉ h.own t := by
    have hf : D.fetch dlqID (.ok (msg :: rest)) now ∈ h.own t := by
      rw [hown]
      simp
    exact (hv.trace t).not_minted hf (by simp [Deployment.fetch]) fun o' hmay => hmay.1
  have heq : x = y := by
    obtain ⟨ctx, ml, m, hxe⟩ := hadds
    exact hv.add_once hmint hxm hym hxt hyt ⟨_, _, _, _, _, _, hxev.trans hxe⟩
      ⟨_, _, _, _, _, _, hyev⟩
  have hv' : v = jobValues text := by
    obtain ⟨ctx, ml, m, hxe⟩ := hadds
    rw [heq] at hxev
    have := hyev.symm.trans (hxev.trans hxe)
    cases this
    rfl
  have hjob' : h.HasJob stream' id' (DLQ.resetForRequeue orig) := by
    rw [← hxev] at hadds
    exact ⟨v, ⟨x, hxm, hadds⟩, by rw [hv']; exact hreset⟩
  rw [hv.hasJob_unique hjob hjob']
  rfl

/-- The duplicate check is the first thing a delivery does. -/
theorem Valid.own_before_check (hv : Valid D h) {t : Nat} {d : Delivery} {h₁ h₂ : Log}
    {e : Event Ev} {reply : Except RedisError Bool} {now : Nat} (hlog : h = h₁ ++ e :: h₂)
    (het : e.tid = some t) (hcheck : e.ev = D.check d reply now) (hs : .started d ∈ h.own t) :
    h₂.own t = [.started d] := by
  have hve : Valid D (e :: h₂) := Valid.suffix (hlog ▸ hv)
  obtain ⟨-, -, hmay⟩ := hve
  rw [het, hcheck] at hmay
  rcases hmay with ⟨-, -, d', hown, -⟩ | ⟨-, p, hkey⟩
  · have hs' : .started d' ∈ h.own t := by
      refine Log.own_mono (h := h₂) (fun x hx => ?_) (by rw [hown]; exact List.mem_cons_self ..)
      rw [hlog]
      exact Log.mem_of_before hx
    rw [hown, (hv.trace t).started_unique hs hs']
  · exact absurd hkey (dedupKey_ne_reclaimLockKey _ _ _)

/-- A delivery that has only won its duplicate check has not processed its job. -/
theorem not_processed_of_check {d d' : Delivery} {res : Option String} {now : Nat} :
    ¬ Processed D d' res [D.check d (.ok true) now, .started d] := by
  intro hp
  generalize ho : [D.check d (.ok true) now, Ev.started d] = o at hp
  cases hp with
  | duplicate now' hd =>
      obtain ⟨hcheck, hstarted⟩ := List.cons.inj ho
      cases hstarted
      cases hcheck
  | unchecked err now' hd =>
      obtain ⟨hcheck, hstarted⟩ := List.cons.inj ho
      cases hstarted
      cases hcheck
  | fresh now' res' hd => cases ho
  | plain res' hd => cases ho

/-- A delivery that has won its duplicate check calls the downstream processor
    next. -/
theorem invoked_of_may {d : Delivery} {now : Nat} {ev : Ev}
    (hmay : D.May [D.check d (.ok true) now, .started d] ev) : ∃ job, ev = .invoked job := by
  generalize ho : [D.check d (.ok true) now, Ev.started d] = o at hmay
  cases ev with
  | invoked job => exact ⟨job, rfl⟩
  | minted uuid =>
      obtain ⟨u, hu⟩ := hmay (.started d) (by simp [← ho])
      cases hu
  | started d' =>
      rw [← ho] at hmay
      cases hmay
  | returned e res =>
      obtain ⟨o', rfl⟩ := hmay
      cases ho
  | finished run =>
      obtain ⟨d', -, hended⟩ := hmay
      cases hended with
      | acked hs => cases ho
      | stuck hp hx ht => cases ho
  | cancelled run => exact hmay.elim
  | noted n =>
      cases n with
      | enqueued id =>
          obtain ⟨_, _, _, _, _, rfl⟩ := hmay
          cases ho
      | requeued id stream =>
          obtain ⟨_, _, _, _, _, _, _, _, _, rfl⟩ := hmay
          cases ho
  | cmd ctx c reply n =>
      exfalso
      have hstarted : .started d ∈ o := by simp [← ho]
      cases c with
      | setNX key value ttl =>
          rcases hmay with ⟨-, -, d', rfl, -⟩ | ⟨hidle, -⟩
          · cases ho
          · exact hidle d hstarted
      | xAdd stream maxLen v =>
          have horig : Origin D o ctx (.xAdd stream maxLen v) := hmay
          cases horig with
          | enqueue hprod hm ht => exact hprod.not_started hstarted
          | copy hp hx ht => exact not_processed_of_check (ho ▸ hp)
          | bury hp hx ht => exact not_processed_of_check (ho ▸ hp)
          | requeue he hj ht => cases ho
      | xAck stream group id =>
          obtain ⟨d', -, -, hsettled⟩ := hmay
          cases hsettled with
          | done hp => exact not_processed_of_check (ho ▸ hp)
          | copied hp hx ht => cases ho
          | buried hp hx ht => cases ho
      | xDel stream id =>
          obtain ⟨-, -, _, _, _, _, _, _, _, _, rfl⟩ := hmay
          cases ho
      | xRange stream lo hi =>
          rw [hmay.1] at hstarted
          cases hstarted
      | xReadGroup stream group consumer block => exact hmay d hstarted
      | xAutoClaim stream group consumer minIdle start count => exact hmay d hstarted
      | xGroupCreateMkStream stream group => exact hmay d hstarted
      | xLen stream => exact hmay d hstarted
      | xPending stream group => exact hmay d hstarted

theorem Log.invokes_iff {t : Nat} : h.Invokes t ↔ ∃ job, .invoked job ∈ h.own t := by
  constructor
  · rintro ⟨ev, hev, hi⟩
    unfold Ev.isInvoked at hi
    split at hi
    · exact ⟨_, hev⟩
    · cases hi
  · rintro ⟨job, hev⟩
    exact ⟨_, hev, rfl⟩

-- ============================================================================
-- What the delivery does
-- ============================================================================

/-- A task makes one duplicate check. -/
theorem Valid.check_once (hv : Valid D h) {e e' : Event Ev} {t : Nat} {d : Delivery}
    {reply reply' : Except RedisError Bool} {now now' : Nat} (he : e ∈ h) (he' : e' ∈ h)
    (het : e.tid = some t) (het' : e'.tid = some t) (hev : e.ev = D.check d reply now)
    (hev' : e'.ev = D.check d reply' now') : e = e' := by
  refine hv.once (K := fun ev => ∃ reply now, ev = D.check d reply now) ?_ he he' het het'
    ⟨_, _, hev⟩ ⟨_, _, hev'⟩
  rintro o ev - - hmay ⟨reply, now, rfl⟩ ev' hmem ⟨reply', now', rfl⟩
  rcases hmay with ⟨-, -, d', rfl, -⟩ | ⟨-, p, hkey⟩
  · simp [Deployment.check] at hmem
  · exact absurd hkey (dedupKey_ne_reclaimLockKey _ _ _)

/-- A delivery that goes on after its duplicate check calls the downstream
    processor exactly if it won the check. -/
theorem Valid.invokes_iff_check (hv : Valid D h) (hd : D.dedup = true) {t : Nat} {d : Delivery}
    {h₁ h₂ : Log} {e : Event Ev} {reply : Except RedisError Bool} {now : Nat}
    (hlog : h = h₁ ++ e :: h₂) (hs : .started d ∈ h.own t) (het : e.tid = some t)
    (hcheck : e.ev = D.check d reply now) (hnext : ∃ x ∈ h₁, x.tid = some t) :
    h.Invokes t ↔ reply = .ok true := by
  have he : e ∈ h := by simp [hlog]
  rw [Log.invokes_iff]
  constructor
  · rintro ⟨job, hinv⟩
    obtain ⟨d', hs', -, hwon⟩ := (hv.trace t).invoked hinv
    obtain rfl := (hv.trace t).started_unique hs hs'
    obtain ⟨now', hmem⟩ := hwon hd
    obtain ⟨x, hx, hxt, hxev⟩ := Log.mem_own.mp hmem
    have heq := hv.check_once he hx het hxt hcheck hxev
    rw [heq, hxev] at hcheck
    cases hcheck
    rfl
  · rintro rfl
    obtain ⟨x, hx, hxt⟩ := hnext
    have hown := hv.own_before_check hlog het hcheck hs
    have hsplit : h.own t = h₁.own t ++ [D.check d (.ok true) now, .started d] := by
      rw [hlog, Log.own_append, Log.own_cons_self het, hcheck, hown]
    -- the first event after the check is the call
    rcases List.eq_nil_or_concat (h₁.own t) with hnil | ⟨o, ev, hlast⟩
    · have hmem : x.ev ∈ h₁.own t := Log.mem_own.mpr ⟨x, hx, hxt, rfl⟩
      rw [hnil] at hmem
      cases hmem
    · have htrace := hv.trace t
      rw [hsplit, hlast, List.concat_eq_append, List.append_assoc] at htrace
      obtain ⟨job, rfl⟩ := invoked_of_may htrace.suffix.1
      refine ⟨job, ?_⟩
      rw [hsplit, hlast]
      simp

/-- The server lets a delivery win exactly if every claim of the key has
    expired. -/
theorem Valid.check_won_iff (hv : Valid D h) (hst : Stamped h) {d : Delivery} {h₁ h₂ : Log}
    {e : Event Ev} {reply : Except RedisError Bool} {now : Nat} (hlog : h = h₁ ++ e :: h₂)
    (hcheck : e.ev = D.check d reply now) :
    reply = .ok true ↔ (∀ err, reply ≠ .error err) ∧ h.Expired d.key e.seq now := by
  have hve : Valid D (e :: h₂) := Valid.suffix (hlog ▸ hv)
  have hserved := hve.served
  rw [hcheck] at hserved
  have hreply := hserved.2
  have hbefore : ∀ x, x ∈ h₂ ↔ x ∈ h ∧ x.seq < e.seq := by
    subst hlog
    exact fun _ => hst.mem_later_iff
  cases reply with
  | error err => simp
  | ok won =>
      cases won with
      | true =>
          refine iff_of_true rfl ⟨by simp, ?_⟩
          intro x hx hlt y hy
          exact hreply x ((hbefore x).mpr ⟨hx, hlt⟩) y hy
      | false =>
          refine iff_of_false (by simp) ?_
          rintro ⟨-, hexp⟩
          obtain ⟨x, hx, y, hclaim, hlive⟩ := hreply
          obtain ⟨hx, hlt⟩ := (hbefore x).mp hx
          obtain ⟨z, rfl, hz⟩ := hexp x hx hlt y hclaim
          have := hlive z rfl
          omega

/-- A delivery of a requeued message, in any run: it calls the downstream
    processor exactly if its duplicate check is answered and the job's first dedup
    key has expired by then. -/
theorem requeued_invoked_iff (hd : D.dedup = true) {P : Policy (world D)} {c : Conf (world D)}
    (hc : P.Reachable Store.init c) {t : Nat} {d : Delivery} {e : Event Ev}
    {reply : Except RedisError Bool} {now : Nat} (hs : .started d ∈ c.store.log.own t)
    (hreq : c.store.log.Requeued (D.stream d.run) d.id) (he : e ∈ c.store.log)
    (het : e.tid = some t) (hcheck : e.ev = D.check d reply now)
    (hnext : ∃ x ∈ c.store.log, x.tid = some t ∧ e.seq < x.seq) :
    c.store.log.Invokes t ↔
      (∀ err, reply ≠ .error err) ∧
        c.store.log.Expired (dedupKey d.envelope.jobID 0) e.seq now := by
  have hv := (reachable_valid hc).1
  have hst := reachable_stamped hc
  have hkey : d.key = dedupKey d.envelope.jobID 0 := by
    rw [Delivery.key, hv.requeued_zero hreq (hv.held hs).hasJob]
  obtain ⟨h₁, h₂, hlog⟩ := List.append_of_mem he
  rw [← hkey, ← hv.check_won_iff hst hlog hcheck]
  refine hv.invokes_iff_check hd hlog hs het hcheck ?_
  obtain ⟨x, hx, hxt, hlt⟩ := hnext
  rw [hlog] at hx hst
  rcases List.mem_append.mp hx with hx | hx
  · exact ⟨x, hx, hxt⟩
  · rcases List.mem_cons.mp hx with rfl | hx
    · omega
    · have := hst.lt_of_later hx
      omega

end

-- ============================================================================
-- Runs
-- ============================================================================

/-- A job fails three times, goes to the dead letter queue and is requeued. -/
def requeuedJob (D : Deployment) : List (Action (world D)) :=
  [.start .setupPartitions] ++ steps 0 3 ++
  [.start (.enqueue { LogEvent.zero with service := "a" })] ++
  steps 1 5 { uuid := "j", id := .of 1 0 } ++
  [.start (.poll 0 1)] ++ steps 2 5 ++ [.start (.process 0)] ++
  steps 3 9 { result := some "timeout", id := .of 2 0 } ++
  [.start (.poll 0 1)] ++ steps 4 5 ++ [.start (.process 0)] ++
  steps 5 9 { result := some "timeout", id := .of 3 0 } ++
  [.start (.poll 0 1)] ++ steps 6 5 ++ [.start (.process 0)] ++
  steps 7 10 { result := some "timeout", id := .of 4 0 } ++
  [.start (.requeue (.of 4 0) (D.partitionStream 0) 0)] ++
  steps 8 5 { id := .of 5 0 } ++
  [.start (.poll 0 1)] ++ steps 9 5 ++ [.start (.process 0)]

/-- The requeued job is skipped: the claim of its first attempt lasts an hour. -/
theorem requeued_skipped : ∃ c t d,
    (Policy.any (W := world (.ofDefaults true))).Reachable Store.init c ∧
    .started d ∈ c.store.log.own t ∧
    c.store.log.Requeued (Deployment.stream (.ofDefaults true) d.run) d.id ∧
    (∃ ev ∈ c.store.log.own t, ev.acked = some (Deployment.stream (.ofDefaults true) d.run,
      Deployment.group (.ofDefaults true) d.run, d.id)) ∧
    ¬ c.store.log.Invokes t := by
  obtain ⟨c, hc, ev, hev, d, hd, hrest⟩ : ∃ c,
      (Policy.any (W := world (.ofDefaults true))).Reachable Store.init c ∧
      ∃ ev ∈ c.store.log.own 10, ∃ d ∈ ev.delivery,
        c.store.log.Requeued (Deployment.stream (.ofDefaults true) d.run) d.id ∧
        (∃ ev ∈ c.store.log.own 10, ev.acked = some (Deployment.stream (.ofDefaults true) d.run,
          Deployment.group (.ofDefaults true) d.run, d.id)) ∧
        ¬ c.store.log.Invokes 10 :=
    Policy.exists_reachable_any (requeuedJob _ ++ steps 10 6) (by decide +kernel)
  rw [Ev.delivery_eq_some.mp hd] at hev
  exact ⟨c, 10, d, hc, hev, hrest⟩

/-- An hour later the requeued job is processed again. -/
theorem requeued_invoked_hourLater : ∃ c t d e now,
    (Policy.any (W := world (.ofDefaults true))).Reachable Store.init c ∧
    .started d ∈ c.store.log.own t ∧
    c.store.log.Requeued (Deployment.stream (.ofDefaults true) d.run) d.id ∧
    c.store.log.Invokes t ∧ e ∈ c.store.log ∧
    c.store.log.Expired (dedupKey d.envelope.jobID 0) e.seq now := by
  obtain ⟨c, hc, ⟨e, he, het, hclaimed, hnext⟩, hreq, hinv⟩ : ∃ c,
      (Policy.any (W := world (.ofDefaults true))).Reachable Store.init c ∧
      (∃ e ∈ c.store.log, e.tid = some 10 ∧ e.ev.claimed = some (dedupKey "j" 0) ∧
        ∃ x ∈ c.store.log, x.tid = some 10 ∧ e.seq < x.seq) ∧
      (∃ ev ∈ c.store.log.own 10, ∃ d ∈ ev.delivery,
        c.store.log.Requeued (Deployment.stream (.ofDefaults true) d.run) d.id) ∧
      c.store.log.Invokes 10 :=
    Policy.exists_reachable_any
      (requeuedJob _ ++ [.env (.tick 3600000)] ++ steps 10 3) (by decide +kernel)
  have htrace := (reachable_valid hc).1.trace 10
  obtain ⟨x, hclaims⟩ := Ev.claimed_eq_some.mp hclaimed
  obtain ⟨d, now, hs, hcheck, -⟩ := htrace.claims (Log.mem_own.mpr ⟨e, he, het, rfl⟩) hclaims
  obtain ⟨ev, hev, d', hd', hreq⟩ := hreq
  rw [Ev.delivery_eq_some.mp hd'] at hev
  obtain rfl := htrace.started_unique hs hev
  have hiff := requeued_invoked_iff rfl hc hs hreq he het hcheck hnext
  exact ⟨c, 10, d, e, now, hc, hs, hreq, hinv, he, (hiff.mp hinv).2⟩

end LogPipeline.Cluster
