/-
  LogPipeline.Cluster.Faults

  What the results assume of the surroundings of the pipeline, as guards on single
  steps, and what each guard says about the log of a run.

  The guards are decidable, so that a concrete run can be checked against them.
  Events are read through the views `Ev.jobAdded`, `Ev.entryAdded`, `Ev.acked`,
  `Ev.succeeded`, `Ev.claimed` and `Ev.delivery`.
-/

import LogPipeline.Cluster.Jobs

namespace LogPipeline.Cluster

open Conc Go Redis Queue Bootstrap

-- ============================================================================
-- Views
-- ============================================================================

namespace Ev

/-- A job entry that was added: stream, id and envelope. -/
def jobAdded : Ev → Option (String × StreamID × JobEnvelope)
  | .cmd _ (.xAdd stream _ v) (.ok id) _ =>
      v.job.map fun e => (stream, id, e)
  | _ => none

/-- A dead letter entry that was added: stream, id and the job in it. -/
def entryAdded : Ev → Option (String × StreamID × JobEnvelope)
  | .cmd _ (.xAdd stream _ v) (.ok id) _ =>
      (v.letter.bind (·.jobData)).map fun job => (stream, id, job)
  | _ => none

/-- An XACK that was executed: stream, group and id. -/
def acked : Ev → Option (String × String × StreamID)
  | .cmd _ (.xAck stream group id) (.ok _) _ => some (stream, group, id)
  | _ => none

/-- The job for which the downstream processor returned nil. -/
def succeeded : Ev → Option String
  | .returned e none => some e.jobID
  | _ => none

/-- The key that a SETNX set. -/
def claimed : Ev → Option String
  | .cmd _ (.setNX key _ _) (.ok true) _ => some key
  | _ => none

/-- The uuid that was made. -/
def mintedID : Ev → Option String
  | .minted uuid => some uuid
  | _ => none

/-- The delivery that was handed to `processMessage`. -/
def delivery : Ev → Option Delivery
  | .started d => some d
  | _ => none

/-- A call of `Enqueue` returned an id. -/
def isEnqueued : Ev → Bool
  | .noted (.enqueued _) => true
  | _ => false

theorem mintedID_eq_some {ev : Ev} {uuid : String} :
    ev.mintedID = some uuid ↔ ev = .minted uuid := by
  constructor
  · intro h
    unfold mintedID at h
    split at h
    · cases h
      rfl
    · cases h
  · rintro rfl
    rfl

theorem delivery_eq_some {ev : Ev} {d : Delivery} : ev.delivery = some d ↔ ev = .started d := by
  cases ev <;> simp [delivery]

theorem isEnqueued_eq_true {ev : Ev} : ev.isEnqueued = true ↔ ∃ id, ev = .noted (.enqueued id) := by
  constructor
  · intro h
    unfold isEnqueued at h
    split at h
    · exact ⟨_, rfl⟩
    · cases h
  · rintro ⟨id, rfl⟩
    rfl

theorem jobAdded_eq_some {ev : Ev} {stream : String} {id : StreamID} {e : JobEnvelope} :
    ev.jobAdded = some (stream, id, e) ↔
      ∃ v, ev.Adds stream id v ∧ v.job = some e := by
  constructor
  · intro h
    unfold jobAdded at h
    split at h
    · next ctx s maxLen v i now =>
        obtain ⟨e', hp, heq⟩ := Option.map_eq_some_iff.mp h
        cases heq
        exact ⟨v, ⟨ctx, maxLen, now, rfl⟩, hp⟩
    · cases h
  · rintro ⟨v, ⟨ctx, maxLen, now, rfl⟩, hp⟩
    simp only [jobAdded, hp, Option.map_some]

theorem entryAdded_eq_some {ev : Ev} {stream : String} {id : StreamID} {job : JobEnvelope} :
    ev.entryAdded = some (stream, id, job) ↔
      ∃ v entry, ev.Adds stream id v ∧ v.letter = some entry ∧ entry.jobData = some job := by
  constructor
  · intro h
    unfold entryAdded at h
    split at h
    · next ctx s maxLen v i now =>
        obtain ⟨job', hj, heq⟩ := Option.map_eq_some_iff.mp h
        obtain ⟨entry, hp, hj⟩ := Option.bind_eq_some_iff.mp hj
        cases heq
        exact ⟨v, entry, ⟨ctx, maxLen, now, rfl⟩, hp, hj⟩
    · cases h
  · rintro ⟨v, entry, ⟨ctx, maxLen, now, rfl⟩, hp, hj⟩
    simp only [entryAdded, hp, hj, Option.bind_some, Option.map_some]

theorem acked_eq_some {ev : Ev} {stream group : String} {id : StreamID} :
    ev.acked = some (stream, group, id) ↔ ev.Acks stream group id := by
  constructor
  · intro h
    unfold acked at h
    split at h
    · next ctx s g i n now =>
        cases h
        exact ⟨ctx, n, now, rfl⟩
    · cases h
  · rintro ⟨ctx, n, now, rfl⟩
    rfl

theorem succeeded_eq_some {ev : Ev} {j : String} :
    ev.succeeded = some j ↔ ∃ e, ev = .returned e none ∧ e.jobID = j := by
  constructor
  · intro h
    unfold succeeded at h
    split at h
    · next e =>
        cases h
        exact ⟨e, rfl, rfl⟩
    · cases h
  · rintro ⟨e, rfl, rfl⟩
    rfl

theorem claimed_eq_some {ev : Ev} {key : String} :
    ev.claimed = some key ↔ ∃ x, ev.Claims key x := by
  constructor
  · intro h
    unfold claimed at h
    split at h
    · next ctx k value ttl now =>
        cases h
        exact ⟨_, ctx, value, ttl, now, rfl, rfl⟩
    · cases h
  · rintro ⟨x, ctx, value, ttl, now, rfl, -⟩
    rfl

end Ev

theorem Log.hasJob_iff {h : Log} {stream : String} {id : StreamID} {e : JobEnvelope} :
    h.HasJob stream id e ↔ ∃ x ∈ h, x.ev.jobAdded = some (stream, id, e) := by
  constructor
  · rintro ⟨v, ⟨x, hx, ha⟩, hp⟩
    exact ⟨x, hx, Ev.jobAdded_eq_some.mpr ⟨v, ha, hp⟩⟩
  · rintro ⟨x, hx, hev⟩
    obtain ⟨v, ha, hp⟩ := Ev.jobAdded_eq_some.mp hev
    exact ⟨v, ⟨x, hx, ha⟩, hp⟩

/-- The deliveries of a log, read from its events. -/
theorem Log.forall_started {h : Log} {P : Nat → Delivery → Prop} :
    (∀ t d, .started d ∈ h.own t → P t d) ↔
      ∀ e ∈ h, ∀ d ∈ e.ev.delivery, ∀ t ∈ e.tid, P t d := by
  constructor
  · intro hP e he d hd t ht
    exact hP t d (Log.mem_own.mpr ⟨e, he, ht, Ev.delivery_eq_some.mp hd⟩)
  · intro hP t d hs
    obtain ⟨e, he, het, hev⟩ := Log.mem_own.mp hs
    exact hP e he d (Ev.delivery_eq_some.mpr hev) t het

/-- `Enqueue` returned success for the job. -/
def Log.Enqueued (h : Log) (j : String) : Prop :=
  ∃ e ∈ h, ∃ t ∈ e.tid, e.ev.isEnqueued = true ∧ ∃ ev ∈ h.own t, ev.mintedID = some j

instance (h : Log) (j : String) : Decidable (h.Enqueued j) :=
  inferInstanceAs (Decidable (∃ e ∈ h, _))

-- ============================================================================
-- Guards
-- ============================================================================

/-- The Redis command of a call, with its context. -/
def Op.command : Op → Option (Ctx × Cmd)
  | .redis ctx c => some (ctx, c)
  | _ => none

/-- The key of a duplicate check. -/
def Cmd.checks : Cmd → Option String
  | .setNX key _ _ => if "dedup:".toList <+: key.toList then some key else none
  | _ => none

/-- A call of `DLQ.Requeue`. -/
def Job.isRequeue : Job → Bool
  | .requeue .. => true
  | _ => false

/-- The server gets the command and answers it. -/
def Answered (ch : Choice) (ctx : Ctx) (s : Store) : Prop :=
  ch.fail = none ∧ ¬ s.log.CtxDone ctx

instance (ch : Choice) (ctx : Ctx) (s : Store) : Decidable (Answered ch ctx s) :=
  inferInstanceAs (Decidable (_ ∧ _))

/-- When the dedup key that the event set expires. -/
def Ev.dedupExpiry : Ev → Option Nat
  | .cmd _ (.setNX key value ttl) (.ok true) now =>
      (Cmd.setNX key value ttl).checks.bind fun _ => expiry now ttl
  | _ => none

/-- No dedup key expires while the clock advances. -/
def KeysKept (ms : Nat) (s : Store) : Prop :=
  ∀ e ∈ s.log, ∀ x ∈ e.ev.dedupExpiry, s.now + ms < x

instance (ms : Nat) (s : Store) : Decidable (KeysKept ms s) :=
  inferInstanceAs (Decidable (∀ e ∈ s.log, ∀ x ∈ e.ev.dedupExpiry, s.now + ms < x))

@[inherit_doc KeysKept]
def Move.KeepsKeys (s : Store) : Move → Prop
  | .tick ms => KeysKept ms s
  | .cancel _ => True

instance (s : Store) : ∀ m : Move, Decidable (m.KeepsKeys s)
  | .tick ms => inferInstanceAs (Decidable (KeysKept ms s))
  | .cancel _ => isTrue trivial

theorem checks_dedupKey (j : String) (r : Int64) (value : String) (ttl : Duration) :
    (Cmd.setNX (dedupKey j r) value ttl).checks = some (dedupKey j r) := by
  have hpre : "dedup:".toList <+: (dedupKey j r).toList := by
    unfold dedupKey
    rw [String.toList_append, String.toList_append, String.toList_append, List.append_assoc,
      List.append_assoc]
    exact List.prefix_append ..
  rw [Cmd.checks, if_pos hpre]

/-- A claimed dedup key expires at the time its view says. -/
theorem Ev.Claims.dedupExpiry {ev : Ev} {j : String} {r : Int64} {x : Option Nat}
    (hc : ev.Claims (dedupKey j r) x) : ev.dedupExpiry = x := by
  obtain ⟨ctx, value, ttl, now, rfl, rfl⟩ := hc
  simp only [Ev.dedupExpiry, checks_dedupKey, Option.bind_some]

-- ============================================================================
-- What the guards say about the log
-- ============================================================================

section

variable {D : Deployment} {P : Policy (world D)} {c : Conf (world D)}

/-- The rule for facts about logged commands: what a permitted step of the server
    guarantees holds of every command in the log. -/
theorem reachable_cmd {G : Log → Ev → Prop}
    (hG : ∀ (c : Conf (world D)) t ch ctx cmd reply s₁, P.Reachable Store.init c →
      P.call t ch (Op.redis ctx cmd) c.store →
      answer ch ctx cmd c.store = some (reply, s₁) →
      Served D c.store.log (.cmd ctx cmd reply c.store.now) →
      G c.store.log (.cmd ctx cmd reply c.store.now))
    (hc : P.Reachable Store.init c) {h₁ h₂ : Log} {e : Event Ev}
    (hlog : c.store.log = h₁ ++ e :: h₂) (hcmd : e.ev.IsCmd) : G h₂ e.ev := by
  have hall : Log.Every (fun h e => e.ev.IsCmd → G h e.ev) c.store.log := by
    refine reachable_every ?_ hc
    intro x s' e hx hm hlog' hv hcmd
    cases hm with
    | redis hp hans =>
        have hlog₁ := (answer_frame hans).1
        simp only [Store.record, hlog₁] at hlog' hv
        cases hlog'
        exact hG x _ _ _ _ _ _ hx hp hans hv.2.1
    | tick hp => exact absurd hlog' (List.cons_ne_self _ _).symm
    | silent hq hs =>
        rw [hs] at hlog'
        exact absurd hlog' (List.cons_ne_self _ _).symm
    | logged hq hs hnot hmint =>
        rw [hs] at hlog'
        cases hlog'
        exact absurd hcmd hnot
  rw [hlog] at hall
  exact hall.here hcmd

/-- While no dedup key expires, each one in the log is still to expire. -/
theorem reachable_now_lt (hP : ∀ ms s, P.env (Move.tick ms) s → KeysKept ms s)
    (hc : P.Reachable Store.init c) :
    ∀ e ∈ c.store.log, ∀ x ∈ e.ev.dedupExpiry, c.store.now < x := by
  refine reachable_invariant (I := fun s => ∀ e ∈ s.log, ∀ x ∈ e.ev.dedupExpiry, s.now < x)
    ?_ ?_ hc
  · intro e he
    cases he
  · intro x s' _ hI hm _
    generalize x.store = s at hI hm
    cases hm with
    | @redis t ch ctx cmd reply s₁ hp hans =>
        obtain ⟨hlog, hnow, -⟩ := answer_frame hans
        intro e he x hx
        change s₁.now < x
        rw [hnow]
        rcases List.mem_cons.mp he with rfl | he
        · -- the command itself: a key is set for at least a millisecond
          obtain ⟨ctx, key, value, ttl, hev, hexp⟩ : ∃ ctx' key value ttl,
              Ev.cmd ctx cmd reply s.now = .cmd ctx' (.setNX key value ttl) (.ok true) s.now ∧
              expiry s.now ttl = some x := by
            unfold Ev.dedupExpiry at hx
            split at hx
            · next ctx' key value ttl now hev =>
                cases hev
                obtain ⟨_, -, hexp⟩ := Option.bind_eq_some_iff.mp hx
                exact ⟨_, _, _, _, rfl, hexp⟩
            · cases hx
          exact lt_of_expiry hexp
        · rw [hlog] at he
          exact hI e he x hx
    | tick hp =>
        intro e he x hx
        exact hP _ _ hp e he x hx
    | silent hq hs =>
        intro e he x hx
        rw [hs] at he
        rw [hq.now]
        exact hI e he x hx
    | logged hq hs hcmd hmint =>
        intro e he x hx
        rw [hs] at he
        rw [hq.now]
        rcases List.mem_cons.mp he with rfl | he
        · exfalso
          unfold Ev.dedupExpiry at hx
          split at hx
          · next ctx key value ttl now hev => exact hcmd ⟨_, _, _, _, hev⟩
          · cases hx
        · exact hI e he x hx

/-- No duplicate check failed. -/
def ChecksAnswered (D : Deployment) (h : Log) : Prop :=
  ∀ e ∈ h, ∀ d err now, e.ev ≠ D.check d (.error err) now

/-- The server answers every duplicate check that reaches it. -/
theorem check_fail {ch : Choice} {d : Delivery} {s s₁ : Store} {err : RedisError}
    (hans : answer ch .background (.setNX d.key "1" D.cfg.worker.dedupTTL) s =
      some (.error err, s₁)) : ch.fail ≠ none := by
  intro hfail
  rcases answer_cases hans with ⟨hd, -⟩ | ⟨-, msg, hmsg, -⟩ | ⟨-, -, hrun⟩
  · exact hd
  · rw [hfail] at hmsg
    cases hmsg
  · rcases runCmd_setNX hrun with ⟨hneg, -, -⟩ | ⟨-, hr, -⟩ | ⟨-, hr, -⟩
    · exact absurd (Int64.lt_trans D.accepted.worker.dedupTTL hneg) (by decide)
    · cases hr
    · cases hr

theorem ChecksAnswered.mono {h h' : Log} (ha : ChecksAnswered D h') (hsub : ∀ e ∈ h, e ∈ h') :
    ChecksAnswered D h :=
  fun e he => ha e (hsub e he)

theorem reachable_checksAnswered
    (hP : ∀ t ch ctx cmd s, P.call t ch (Op.redis ctx cmd) s → cmd.checks ≠ none →
      Choice.fail ch = none)
    (hc : P.Reachable Store.init c) : ChecksAnswered D c.store.log := by
  intro e he d err now hev
  obtain ⟨h₁, h₂, hlog⟩ := List.append_of_mem he
  refine reachable_cmd (G := fun _ ev => ev ≠ D.check d (.error err) now) ?_ hc hlog
    ⟨_, _, _, _, hev⟩ hev
  intro x t ch ctx cmd reply s₁ _ hp hans _ hev
  cases hev
  exact check_fail hans (hP _ _ _ _ _ hp (by rw [Delivery.key, checks_dedupKey]; simp))

/-- While no dedup key expires, an attempt is claimed once. -/
theorem reachable_claim_unique (hP : ∀ ms s, P.env (Move.tick ms) s → KeysKept ms s)
    (hc : P.Reachable Store.init c) {e e' : Event Ev} {j : String} {r : Int64}
    {x x' : Option Nat} (he : e ∈ c.store.log) (he' : e' ∈ c.store.log)
    (hcl : e.ev.Claims (dedupKey j r) x) (hcl' : e'.ev.Claims (dedupKey j r) x') : e = e' := by
  have hlater : ∀ {h₁ h₂ : Log} {a b : Event Ev} {y y' : Option Nat},
      c.store.log = h₁ ++ a :: h₂ → a.ev.Claims (dedupKey j r) y → b ∈ h₂ →
      ¬ b.ev.Claims (dedupKey j r) y' := by
    intro h₁ h₂ a b y y' hlog ha hb hbc
    have hcmd : a.ev.IsCmd := by
      obtain ⟨ctx, value, ttl, now, hev, -⟩ := ha
      exact ⟨_, _, _, _, hev⟩
    refine reachable_cmd (G := fun h ev => ev.Claims (dedupKey j r) y →
      ∀ b ∈ h, ¬ b.ev.Claims (dedupKey j r) y') ?_ hc hlog hcmd ha b hb hbc
    rintro x t ch ctx cmd reply s₁ hx - - hserved ⟨ctx', value, ttl, now, hev, -⟩ b hb hbc
    cases hev
    obtain ⟨z, rfl, hle⟩ := hserved.2 b hb y' hbc
    have hlt := reachable_now_lt hP hx b hb z hbc.dedupExpiry
    omega
  obtain ⟨hv, -⟩ := reachable_valid hc
  rcases hv.order he he' with heq | ⟨h₁, h₂, hlog, -, hm⟩ | ⟨h₁, h₂, hlog, -, hm⟩
  · exact heq
  · exact absurd hcl' (hlater hlog hcl hm)
  · exact absurd hcl (hlater hlog hcl' hm)

end

end LogPipeline.Cluster
