/-
  LogPipeline.Cluster.Dedup

  Which deliveries `DeduplicatingProcessor` skips.

  A dedup key determines the JobID and the RetryCount it was built from, so while no key
  expires the server knows exactly the attempts whose check it has answered.  The runs
  of this module start from any server that has no dedup key: its streams may hold any
  messages, and so any JobID and any RetryCount, negative ones included.

  - `KeyInv` is about the server: a dedup key exists if and only if a check of it was
    answered.
  - `AskInv` is about the programs: only the goroutine of a delivery checks a dedup key,
    that of its own envelope, and it does so once.

  A check that is lost leaves no key, and the delivery that made it is not skipped but
  fails, so `skipped_iff_answered` is about the checks that are answered.
-/

import LogPipeline.Cluster.Control
import LogPipeline.Cluster.LostChecks
import LogPipeline.Cluster.Solo

namespace LogPipeline.Cluster

open Conc Go Redis Queue Bootstrap

-- ============================================================================
-- The property
-- ============================================================================

/-- The event is the first call of `Process` for the delivery. -/
def Deployment.Consults (D : Deployment) (d : Delivery) (ev : Ev) : Prop :=
  ∃ ctx c reply now rest, ev = .cmd ctx c reply now ∧
    (dedupProcess D.cfg.worker.dedupTTL d.envelope).Path [⟨Op.redis ctx c, reply⟩] rest

/-- With the reply in the event `Process` returns nil, and has not called the downstream
    processor. -/
def Deployment.Skips (D : Deployment) (d : Delivery) (ev : Ev) : Prop :=
  ∃ ctx c reply now, ev = .cmd ctx c reply now ∧
    (dedupProcess D.cfg.worker.dedupTTL d.envelope).Path [⟨Op.redis ctx c, reply⟩] (.ret none)

/-- A delivery in the log, by the first call of its `Process`. -/
structure Log.Delivered (D : Deployment) (h : Log) (e : Event Ev) (d : Delivery) : Prop where
  mem : e ∈ h
  started : ∃ t, e.tid = some t ∧ .started d ∈ h.own t
  consults : D.Consults d e.ev

/-- The deliveries carry the same JobID and the same RetryCount. -/
def Delivery.SameAttempt (d d' : Delivery) : Prop :=
  d.envelope.jobID = d'.envelope.jobID ∧ d.envelope.retryCount = d'.envelope.retryCount

/-- Another delivery before this one carried the same attempt, and its call is as `φ`
    says. -/
def Log.Repeats (D : Deployment) (h : Log) (e : Event Ev) (d : Delivery) (φ : Ev → Prop) : Prop :=
  ∃ e' d', h.Delivered D e' d' ∧ e'.tid ≠ e.tid ∧ e'.seq < e.seq ∧ d'.SameAttempt d ∧ φ e'.ev

/-- A delivery is skipped exactly when an earlier one carried the same attempt. -/
def SkipsRepeated (D : Deployment) (h : Log) : Prop :=
  ∀ e d, h.Delivered D e d → (D.Skips d e.ev ↔ h.Repeats D e d fun _ => True)

/-- A delivery is skipped exactly when its check is not lost and an earlier delivery whose
    check was not lost carried the same attempt. -/
def SkipsAnswered (D : Deployment) (h : Log) : Prop :=
  ∀ e d, h.Delivered D e d →
    (D.Skips d e.ev ↔ e.ev.lost = none ∧ h.Repeats D e d fun ev => ev.lost = none)

/-- Nothing has happened yet, and no dedup key is set. -/
structure Store.Unclaimed (s : Store) : Prop where
  log : s.log = []
  keys : ∀ j r, s.keys (dedupKey j r) = none

/-- Anything may happen, but no dedup key expires. -/
@[reducible] def unexpiredPolicy (D : Deployment) : Policy (world D) where
  call := fun _ _ _ _ => True
  env := (attemptPolicy D).env
  start := fun _ _ => True
  crash := fun _ _ => True

section

variable {D : Deployment} {d : Delivery} {ev : Ev}

/-- `Process` begins with the duplicate check. -/
theorem consults_iff : D.Consults d ev ↔ ∃ reply now, ev = D.check d reply now := by
  constructor
  · rintro ⟨ctx, c, reply, now, rest, rfl, k, hcall, -⟩
    cases hcall
    exact ⟨reply, now, rfl⟩
  · rintro ⟨reply, now, rfl⟩
    exact ⟨.background, .setNX d.key "1" D.cfg.worker.dedupTTL, reply, now, _, rfl, _, rfl, rfl⟩

/-- The deliveries that are skipped are those whose check finds its key. -/
theorem skips_check {reply : Except RedisError Bool} {now : Nat} :
    D.Skips d (D.check d reply now) ↔ reply = .ok false := by
  constructor
  · rintro ⟨ctx, c, reply', now', heq, k, hcall, hrest⟩
    cases heq
    cases hcall
    match reply with
    | .error err => cases hrest
    | .ok true => cases hrest
    | .ok false => rfl
  · rintro rfl
    exact ⟨.background, .setNX d.key "1" D.cfg.worker.dedupTTL, .ok false, now, rfl, _, rfl, rfl⟩

theorem Delivery.sameAttempt_iff {d d' : Delivery} : d.SameAttempt d' ↔ d.key = d'.key := by
  refine ⟨?_, dedupKey_injective⟩
  rintro ⟨hj, hr⟩
  rw [Delivery.key, Delivery.key, hj, hr]

theorem Log.Delivered.mono {h h' : Log} {e : Event Ev} (hd : h.Delivered D e d)
    (hsub : ∀ x ∈ h, x ∈ h') : h'.Delivered D e d := by
  obtain ⟨hmem, ⟨t, ht, hs⟩, hc⟩ := hd
  exact ⟨hsub e hmem, ⟨t, ht, Log.own_mono hsub hs⟩, hc⟩

end

-- ============================================================================
-- The server
-- ============================================================================

/-- The key of a SETNX that was answered. -/
def Ev.answered : Ev → Option String
  | .cmd _ (.setNX key _ _) (.ok _) _ => some key
  | _ => none

theorem Ev.Claims.answered {ev : Ev} {key : String} {x : Option Nat} (h : ev.Claims key x) :
    ev.answered = some key := by
  obtain ⟨ctx, value, ttl, now, rfl, -⟩ := h
  rfl

/-- The dedup keys of the server are those whose check was answered. -/
structure KeyInv (s : Store) : Prop where
  stored : ∀ j r k, s.keys (dedupKey j r) = some k →
    ∃ e ∈ s.log, e.ev.Claims (dedupKey j r) k.expires
  live : ∀ e ∈ s.log, ∀ j r, e.ev.answered = some (dedupKey j r) → s.Live (dedupKey j r)

/-- A check that is answered finds its key exactly if one was answered before. -/
def Right (h : Log) (e : Event Ev) : Prop :=
  ∀ j r ctx value ttl b now, e.ev = .cmd ctx (.setNX (dedupKey j r) value ttl) (.ok b) now →
    (b = false ↔ ∃ x ∈ h, x.ev.answered = some (dedupKey j r))

section

variable {D : Deployment} {P : Policy (world D)} {s s' : Store} {j : String} {r : Int64}

theorem KeyInv.live_iff (hI : KeyInv s) :
    s.Live (dedupKey j r) ↔ ∃ e ∈ s.log, e.ev.answered = some (dedupKey j r) := by
  constructor
  · rintro ⟨k, hk, -⟩
    obtain ⟨e, he, hclaim⟩ := hI.stored j r k hk
    exact ⟨e, he, hclaim.answered⟩
  · rintro ⟨e, he, ha⟩
    exact hI.live e he j r ha

/-- A step that leaves the keys, the clock and the log alone. -/
theorem KeyInv.same (hI : KeyInv s) (hkeys : s'.keys = s.keys) (hnow : s'.now = s.now)
    (hlog : s'.log = s.log) : KeyInv s' := by
  refine ⟨?_, ?_⟩
  · rw [hkeys, hlog]
    exact hI.stored
  · unfold Store.Live
    rw [hkeys, hnow, hlog]
    exact hI.live

/-- A step that leaves the keys and the clock alone and logs an event, which answers no check
    of a key that does not exist. -/
theorem KeyInv.logged (hI : KeyInv s) {x : Event Ev} (hkeys : s'.keys = s.keys)
    (hnow : s'.now = s.now) (hlog : s'.log = x :: s.log)
    (hx : ∀ j r, x.ev.answered = some (dedupKey j r) → s.Live (dedupKey j r)) : KeyInv s' := by
  refine ⟨?_, ?_⟩
  · intro j r k hk
    rw [hkeys] at hk
    obtain ⟨e, he, hclaim⟩ := hI.stored j r k hk
    rw [hlog]
    exact ⟨e, List.mem_cons_of_mem _ he, hclaim⟩
  · intro e he j r ha
    rw [hlog] at he
    unfold Store.Live
    rw [hkeys, hnow]
    rcases List.mem_cons.mp he with rfl | he
    · exact hx j r ha
    · exact hI.live e he j r ha

/-- A step that leaves the keys and the clock alone, and whose event answers no check. -/
theorem KeyInv.unanswered (hI : KeyInv s) {x : Event Ev} (hkeys : s'.keys = s.keys)
    (hnow : s'.now = s.now) (hlog : s'.log = x :: s.log) (hx : x.ev.answered = none) :
    KeyInv s' := by
  refine hI.logged hkeys hnow hlog ?_
  intro j r ha
  rw [hx] at ha
  cases ha

/-- The clock advances, and no dedup key expires. -/
theorem KeyInv.tick (hI : KeyInv s) {ms : Nat} (hkept : KeysKept ms s) :
    KeyInv { s with now := s.now + ms } := by
  refine ⟨hI.stored, ?_⟩
  intro e he j r ha
  obtain ⟨k, hk, -⟩ := hI.live e he j r ha
  refine ⟨k, hk, ?_⟩
  intro x hx
  obtain ⟨e', he', hclaim⟩ := hI.stored j r k hk
  exact hkept e' he' x (hclaim.dedupExpiry.trans hx)

/-- A key is set: it exists from now on, and its claim is in the log. -/
theorem KeyInv.set (hI : KeyInv s) {t : Nat} {ctx : Ctx} {key value : String} {ttl : Duration} :
    KeyInv (Store.record
      { s with keys := Function.update s.keys key (some ⟨value, expiry s.now ttl⟩) } (some t)
      (.cmd ctx (.setNX key value ttl) (.ok true) s.now)) := by
  refine ⟨?_, ?_⟩
  · intro j r k hk
    by_cases hkey : dedupKey j r = key
    · subst hkey
      obtain rfl : (⟨value, expiry s.now ttl⟩ : Key) = k := by
        simpa [Store.record] using hk
      exact ⟨_, List.mem_cons_self .., ctx, value, ttl, s.now, rfl, rfl⟩
    · have hold : s.keys (dedupKey j r) = some k := by
        simpa [Store.record, Function.update_of_ne hkey] using hk
      obtain ⟨e, he, hclaim⟩ := hI.stored j r k hold
      exact ⟨e, List.mem_cons_of_mem _ he, hclaim⟩
  · intro e he j r ha
    by_cases hkey : dedupKey j r = key
    · subst hkey
      exact ⟨⟨value, expiry s.now ttl⟩, by simp [Store.record], fun x hx => lt_of_expiry hx⟩
    · -- the new event answers another key
      have hold : e ∈ s.log := by
        rcases List.mem_cons.mp he with rfl | he
        · cases ha
          exact absurd rfl hkey
        · exact he
      obtain ⟨k, hk, hx⟩ := hI.live e hold j r ha
      refine ⟨k, ?_, hx⟩
      simpa [Store.record, Function.update_of_ne hkey] using hk

theorem right_of_unanswered {h : Log} {e : Event Ev} (hev : e.ev.answered = none) : Right h e := by
  intro j r ctx value ttl b now heq
  rw [heq] at hev
  cases hev

/-- A command keeps the invariant, and its reply is right. -/
theorem KeyInv.redis (hI : KeyInv s) {t n : Nat} {ch : Choice} {ctx : Ctx} {c : Cmd}
    {reply : Except RedisError c.Reply} {s₁ : Store}
    (hans : answer ch ctx c s = some (reply, s₁)) :
    KeyInv (s₁.record (some t) (.cmd ctx c reply s.now)) ∧
      Right s.log ⟨n, some t, .cmd ctx c reply s.now⟩ := by
  have herror : ∀ err, (Ev.cmd ctx c (.error err) s.now).answered = none := by
    intro err
    unfold Ev.answered
    split
    · next heq => cases heq
    · rfl
  rcases answer_refused_or hans with ⟨-, ⟨err, rfl⟩, rfl⟩ | ⟨-, hrun⟩
  · exact ⟨hI.unanswered rfl rfl rfl (herror err), right_of_unanswered (herror err)⟩
  by_cases hset : ∃ key value ttl, c = .setNX key value ttl
  · obtain ⟨key, value, ttl, rfl⟩ := hset
    rcases runCmd_setNX hrun with ⟨-, ⟨err, rfl⟩, rfl⟩ | ⟨hlive, rfl, rfl⟩ | ⟨hdead, rfl, rfl⟩
    · exact ⟨hI.unanswered rfl rfl rfl rfl, right_of_unanswered rfl⟩
    · refine ⟨hI.logged rfl rfl rfl ?_, ?_⟩
      · intro j r ha
        cases ha
        exact hlive
      · intro j r ctx' value' ttl' b now heq
        cases heq
        exact iff_of_true rfl (hI.live_iff.mp hlive)
    · refine ⟨hI.set, ?_⟩
      intro j r ctx' value' ttl' b now heq
      cases heq
      exact iff_of_false (by simp) (mt hI.live_iff.mpr hdead)
  · have hne : ∀ key value ttl, c ≠ .setNX key value ttl := by
      intro key value ttl heq
      exact hset ⟨key, value, ttl, heq⟩
    have hnone : (Ev.cmd ctx c reply s.now).answered = none := by
      unfold Ev.answered
      split
      · next heq =>
          cases heq
          exact absurd rfl (hne _ _ _)
      · rfl
    have hframe := runCmd_frame hrun
    have hkeys : s₁.keys = s.keys := runCmd_keys hne hrun
    exact ⟨hI.unanswered hkeys hframe.now (congrArg (List.cons _) hframe.log) hnone,
      right_of_unanswered hnone⟩

theorem answered_of_not_cmd {ev : Ev} (h : ¬ ev.IsCmd) : ev.answered = none := by
  unfold Ev.answered
  split
  · exact absurd ⟨_, _, _, _, rfl⟩ h
  · rfl

/-- One step of a run in which no dedup key expires. -/
theorem KeyInv.step (hP : ∀ ms s, P.env (Move.tick ms) s → KeysKept ms s) (hI : KeyInv s)
    (hright : Log.Every Right s.log) (hm : Moves P s s') :
    KeyInv s' ∧ Log.Every Right s'.log := by
  cases hm with
  | @redis t ch ctx c reply s₁ hp hans =>
      obtain ⟨hI', hr⟩ := hI.redis (n := s₁.log.length) hans
      refine ⟨hI', ?_⟩
      rw [Store.record, (answer_frame hans).log] at *
      exact ⟨hright, hr⟩
  | tick hp => exact ⟨hI.tick (hP _ _ hp), hright⟩
  | silent hq hlog => exact ⟨hI.same hq.keys hq.now hlog, hlog ▸ hright⟩
  | logged hq hlog hcmd hmint =>
      have hnone := answered_of_not_cmd hcmd
      refine ⟨hI.unanswered hq.keys hq.now hlog hnone, ?_⟩
      rw [hlog]
      exact ⟨hright, right_of_unanswered hnone⟩

/-- In every run in which no dedup key expires, the replies to checks are right. -/
theorem reachable_right (hP : ∀ ms s, P.env (Move.tick ms) s → KeysKept ms s) {s₀ : Store}
    (h₀ : s₀.Unclaimed) {c : Conf (world D)} (hc : P.Reachable s₀ c) :
    Log.Every Right c.store.log := by
  have hinit : KeyInv s₀ ∧ Log.Every Right s₀.log := by
    refine ⟨⟨?_, ?_⟩, ?_⟩
    · intro j r k hk
      rw [h₀.keys] at hk
      cases hk
    · intro e he
      rw [h₀.log] at he
      cases he
    · rw [h₀.log]
      trivial
  have hinv := Reaches.invariant
    (I := fun c : Conf (world D) => KeyInv c.store ∧ Log.Every Right c.store.log) hc hinit
    fun _ _ _ _ hI hp hxy => hI.1.step hP hI.2 (apply_moves hp hxy)
  exact hinv.2

end

-- ============================================================================
-- The programs
-- ============================================================================

/-- The key of a SETNX. -/
def Op.asked : Op → Option String
  | .redis _ (.setNX key _ _) => some key
  | _ => none

@[inherit_doc Op.asked]
def Ev.asked : Ev → Option String
  | .cmd _ (.setNX key _ _) _ _ => some key
  | _ => none

/-- The call checks no dedup key. -/
def Op.Spares (o : Op) : Prop := ∀ j r, o.asked ≠ some (dedupKey j r)

/-- The event is a check of a dedup key. -/
def Ev.IsAsk (ev : Ev) : Prop := ∃ j r, ev.asked = some (dedupKey j r)

theorem Op.spares_of_none {o : Op} (h : o.asked = none) : o.Spares := by
  intro j r heq
  rw [h] at heq
  cases heq

theorem Op.spares_lockCmd (D : Deployment) (run : Nat) (ctx : Ctx) :
    (Op.redis ctx (D.lockCmd run)).Spares := by
  intro j r heq
  exact dedupKey_ne_reclaimLockKey j r (D.partition run) (Option.some.inj heq).symm

/-- Whether a task is yet to make the check of its delivery. -/
inductive Phase where
  | due (d : Delivery)
  | quiet

/-- The checks a task makes. -/
inductive Asking (D : Deployment) : Phase → (o : Op) → o.Res → Phase → Prop
  | ask {d : Delivery} {r : Except RedisError Bool} :
      Asking D (.due d) (.redis .background (.setNX d.key "1" D.cfg.worker.dedupTTL)) r .quiet
  | other {x : Phase} {o : Op} {r : o.Res} (h : o.Spares) : Asking D x o r x

/-- The automaton of the checks. -/
@[reducible] def asking (D : Deployment) : Typestate sig Phase := ⟨Asking D, fun _ => True⟩

section

variable {D : Deployment}

/-- A program that makes no check may run in any phase. -/
theorem typed_of_spares {p : Program Unit} (hp : p.Uses Op.Spares) (x : Phase) :
    Typed (asking D) (fun _ _ => True) p x :=
  (Typed.of_uses (fun _ _ h => Asking.other h) hp).mono fun _ _ _ => trivial

/-- The stages of the goroutine of a message. -/
def Stage.OfMessage : Stage → Prop
  | .spawned _ => True
  | .active _ => True
  | .closing _ => True
  | _ => False

/-- Outside of the goroutine of a message the only SETNX is that of the reclaim lock. -/
theorem Control.spares {x y : Stage} {o : Op} {r : o.Res} (h : Control D x o r y)
    (hx : ¬ x.OfMessage) : o.Spares ∧ ¬ y.OfMessage := by
  cases h with
  | won => exact ⟨Op.spares_lockCmd D _ _, not_false⟩
  | lost => exact ⟨Op.spares_lockCmd D _ _, not_false⟩
  | enter | command | time | invoke | await | done | release => exact absurd trivial hx
  | _ => exact ⟨Op.spares_of_none rfl, not_false⟩

theorem uses_spares {Q : Unit → Stage → Prop} {p : Program Unit} {x : Stage}
    (h : Typed (control D) Q p x) (hx : ¬ x.OfMessage) : p.Uses Op.Spares := by
  have : ∀ o, Nonempty (sig.Res o) := Op.res_nonempty
  exact h.uses (J := fun x => ¬ x.OfMessage) (fun hx hy => Control.spares hy hx) hx

/-- `Process` makes the check of its envelope, or none. -/
theorem typed_process_asking (d : Delivery) :
    Typed (asking D) (fun _ _ => True) (D.processor.process d.envelope) (.due d) := by
  have hdown : ∀ x, Typed (asking D) (fun _ _ => True) (callDownstream d.envelope) x := fun x _ =>
    ⟨x, .other (Op.spares_of_none rfl), fun _ => ⟨x, .other (Op.spares_of_none rfl), trivial⟩⟩
  unfold Deployment.processor
  split
  · intro r
    refine ⟨.quiet, .ask, ?_⟩
    match r with
    | .error err => trivial
    | .ok true => exact hdown .quiet
    | .ok false => trivial
  · exact hdown (.due d)

theorem typed_processMessage_asking (d : Delivery) :
    Typed (asking D) (fun _ _ => True) ((D.worker d.run).processMessage d.envelope d.id)
      (.due d) := by
  refine (typed_process_asking d).seq ?_
  rintro res x -
  refine typed_of_spares ?_ x
  -- what is done with the result makes no check
  cases res with
  | some err =>
      exact uses_discard (uses_retry (Op.spares_of_none rfl)
        (fun _ _ _ => Op.spares_of_none rfl) (Op.spares_of_none rfl))
  | none => exact uses_discard (uses_ack (Op.spares_of_none rfl))

/-- The goroutine of a message checks at most the key of its delivery, and that once. -/
theorem typed_jobGoroutine_asking (d : Delivery) :
    Typed (asking D) (fun _ _ => True) ((D.worker d.run).jobGoroutine d.envelope d.id)
      (.due d) := by
  intro _
  refine ⟨_, .other (Op.spares_of_none rfl), (typed_processMessage_asking d).seq ?_⟩
  rintro _ x -
  exact fun _ => ⟨x, .other (Op.spares_of_none rfl), fun _ =>
    ⟨x, .other (Op.spares_of_none rfl), trivial⟩⟩

/-- The phase in which a program starts. -/
def Job.phase (s : Store) : Job → Phase
  | .process index =>
      match s.ready[index]? with
      | some d => .due d
      | none => .quiet
  | _ => .quiet

/-- Every program that can be started follows the automaton. -/
theorem typed_start_asking {t : Nat} {j : Job} {s s' : Store} {p : Program Unit}
    (hst : startJob D t j s = some (p, s')) :
    Typed (asking D) (fun _ _ => True) p (j.phase s) := by
  have htyped := typed_start hst
  cases j with
  | process index =>
      simp only [startJob] at hst
      split at hst
      · next d hd =>
          cases hst
          simp only [Job.phase, hd]
          exact typed_jobGoroutine_asking d
      · cases hst
  | _ => exact typed_of_spares (uses_spares htyped not_false) .quiet

/-- Only the goroutine of a delivery checks a dedup key, that of its envelope, and it does
    so once. -/
structure AskInv (D : Deployment) (h : Log) (st : Nat → Option Phase) : Prop where
  due : ∀ t d, st t = some (.due d) →
    .started d ∈ h.own t ∧ ∀ e ∈ h, e.tid = some t → ¬ e.ev.IsAsk
  asked : ∀ e ∈ h, e.ev.IsAsk → ∃ d, h.Delivered D e d
  once : ∀ e ∈ h, ∀ e' ∈ h, e.ev.IsAsk → e'.ev.IsAsk → e.tid = e'.tid → e = e'

theorem not_isAsk_of_not_isCmd {ev : Ev} (h : ¬ ev.IsCmd) : ¬ ev.IsAsk := by
  rintro ⟨j, r, hask⟩
  unfold Ev.asked at hask
  split at hask
  · exact h ⟨_, _, _, _, rfl⟩
  · cases hask

theorem Op.Spares.not_isAsk {ctx : Ctx} {c : Cmd} {reply : Except RedisError c.Reply} {now : Nat}
    (h : (Op.redis ctx c).Spares) : ¬ (Ev.cmd ctx c reply now).IsAsk := by
  rintro ⟨j, r, hask⟩
  refine h j r ?_
  rw [← hask]
  cases c <;> rfl

/-- A call that spares the dedup keys logs no check. -/
theorem exec_spares {t : Nat} {ch : Choice} {o : Op} {s s' : Store} {r : o.Res} (ho : o.Spares)
    (h : exec D t ch o s = some (r, s')) : ∀ e ∈ s'.log, e ∈ s.log ∨ ¬ e.ev.IsAsk := by
  by_cases hredis : ∃ ctx c, o = .redis ctx c
  · obtain ⟨ctx, c, rfl⟩ := hredis
    obtain ⟨s₁, hans, rfl⟩ := exec_redis h
    intro e he
    rw [Store.record, (answer_frame hans).log] at he
    rcases List.mem_cons.mp he with rfl | he
    · exact Or.inr ho.not_isAsk
    · exact Or.inl he
  · have hquiet := (exec_quiet (fun ctx c heq => hredis ⟨ctx, c, heq⟩) h).2
    exact fun e he => (hquiet e he).imp_right not_isAsk_of_not_isCmd

section

variable {h h' : Log} {st st' : Nat → Option Phase}

/-- A step that makes no check.  A task that is due from now on has done nothing yet. -/
theorem AskInv.frame (hI : AskInv D h st) (hsub : ∀ e ∈ h, e ∈ h')
    (hnew : ∀ e ∈ h', e ∈ h ∨ ¬ e.ev.IsAsk)
    (hst : ∀ t d, st' t = some (.due d) →
      st t = some (.due d) ∨ .started d ∈ h'.own t ∧ ∀ e ∈ h, e.tid ≠ some t) :
    AskInv D h' st' := by
  have hold : ∀ e ∈ h', e.ev.IsAsk → e ∈ h := fun e he hask =>
    (hnew e he).resolve_right fun hno => hno hask
  refine ⟨?_, ?_, ?_⟩
  · intro t d hd
    rcases hst t d hd with hd | ⟨hs, hfresh⟩
    · obtain ⟨hs, hno⟩ := hI.due t d hd
      exact ⟨Log.own_mono hsub hs, fun e he het hask => hno e (hold e he hask) het hask⟩
    · exact ⟨hs, fun e he het hask => hfresh e (hold e he hask) het⟩
  · intro e he hask
    obtain ⟨d, hd⟩ := hI.asked e (hold e he hask) hask
    exact ⟨d, hd.mono hsub⟩
  · intro e he e' he' hask hask'
    exact hI.once e (hold e he hask) e' (hold e' he' hask') hask hask'

/-- The check of a delivery that was due. -/
theorem AskInv.ask (hI : AskInv D h st) {t : Nat} {d : Delivery} (hd : st t = some (.due d))
    (n now : Nat) (reply : Except RedisError Bool) :
    AskInv D (⟨n, some t, D.check d reply now⟩ :: h) (Function.update st t (some .quiet)) := by
  obtain ⟨hs, hno⟩ := hI.due t d hd
  have hsub : ∀ e ∈ h, e ∈ (⟨n, some t, D.check d reply now⟩ :: h : Log) :=
    fun e he => List.mem_cons_of_mem _ he
  refine ⟨?_, ?_, ?_⟩
  · intro u d' hd'
    rcases update_eq_some hd' with ⟨-, hq⟩ | ⟨hut, hd'⟩
    · cases hq
    · obtain ⟨hs', hno'⟩ := hI.due u d' hd'
      refine ⟨Log.own_mono hsub hs', ?_⟩
      intro e he heu
      rcases List.mem_cons.mp he with rfl | he
      · cases heu
        exact absurd rfl hut
      · exact hno' e he heu
  · intro e he hask
    rcases List.mem_cons.mp he with rfl | he
    · exact ⟨d, List.mem_cons_self .., ⟨t, rfl, Log.own_mono hsub hs⟩,
        consults_iff.mpr ⟨reply, now, rfl⟩⟩
    · obtain ⟨d', hd'⟩ := hI.asked e he hask
      exact ⟨d', hd'.mono hsub⟩
  · intro e he e' he' hask hask' heq
    -- the task had made no check before
    rcases List.mem_cons.mp he with rfl | he <;> rcases List.mem_cons.mp he' with rfl | he'
    · rfl
    · exact absurd hask' (hno e' he' heq.symm)
    · exact absurd hask (hno e he heq)
    · exact hI.once e he e' he' hask hask' heq

end

/-- A task is over. -/
theorem AskInv.drop {h : Log} {st : Nat → Option Phase} (hI : AskInv D h st) (t : Nat) :
    AskInv D h (Function.update st t none) := by
  refine hI.frame (fun e he => he) (fun e he => Or.inl he) ?_
  intro u d hu
  rcases update_eq_some hu with ⟨-, hx⟩ | ⟨-, hu⟩
  · cases hx
  · exact Or.inl hu

theorem move_not_isAsk {m : Move} {s s' : Store} (h : move m s = some s') :
    ∀ e ∈ s'.log, e ∈ s.log ∨ ¬ e.ev.IsAsk := by
  intro e he
  cases m with
  | tick ms =>
      cases h
      exact Or.inl he
  | cancel run =>
      cases h
      rcases List.mem_cons.mp he with rfl | he
      · right
        rintro ⟨_, _, hask⟩
        cases hask
      · exact Or.inl he

/-- A program that starts makes no check yet, and its delivery is in the log. -/
theorem startJob_phase {t : Nat} {j : Job} {s s' : Store} {p : Program Unit}
    (h : startJob D t j s = some (p, s')) :
    (∀ e ∈ s'.log, e ∈ s.log ∨ ¬ e.ev.IsAsk) ∧
      ∀ d, j.phase s = .due d → .started d ∈ s'.log.own t := by
  cases j with
  | process index =>
      simp only [startJob] at h
      split at h
      · next d hd =>
          cases h
          refine ⟨?_, ?_⟩
          · intro e he
            rcases List.mem_cons.mp he with rfl | he
            · right
              rintro ⟨_, _, hask⟩
              cases hask
            · exact Or.inl he
          · intro d' hd'
            simp only [Job.phase, hd] at hd'
            cases hd'
            exact Log.mem_own.mpr ⟨_, List.mem_cons_self .., rfl, rfl⟩
      · cases h
  | _ =>
      cases h
      exact ⟨fun e he => Or.inl he, fun d hd => by cases hd⟩

variable {P : Policy (world D)} {s₀ : Store}

/-- Every step keeps the invariant. -/
theorem askInv_keeps (h₀ : s₀.log = []) : (asking D).Keeps
    (fun c a => Reaches Conf.apply P.Permits (Conf.init s₀) c ∧ P.Permits c a)
    (fun (c : Conf (world D)) st => AskInv D c.store.log st) where
  call := by
    intro c st t ch o k r s' x y hI _ hcall _
    have hexec : exec D t ch o c.store = some (r, s') := hcall.exec
    have hnext := hcall.next
    cases hnext with
    | ask =>
        obtain ⟨s₁, hans, rfl⟩ := exec_redis (D := D) hexec
        have hask := hI.ask hcall.stage s₁.log.length c.store.now
        rw [← (answer_frame hans).log] at hask
        exact hask _
    | other ho =>
        refine hI.frame (fun e he => (exec_records hexec).mem he) (exec_spares ho hexec) ?_
        intro u d hu
        left
        rcases update_eq_some hu with ⟨rfl, hx⟩ | ⟨-, hu⟩
        · rw [hcall.stage, hx]
        · exact hu
  ret := fun hI _ _ _ => hI.drop _
  crash := fun hI _ => hI.drop _
  env := by
    intro c st m s' hI _ hm
    exact hI.frame (fun e he => (move_records hm).mem he) (move_not_isAsk hm)
      fun _ _ hd => Or.inl hd
  start := by
    intro c st j p s' hI _ hC hst
    refine ⟨_, typed_start_asking hst, ?_⟩
    obtain ⟨hno, hstarted⟩ := startJob_phase hst
    refine hI.frame (fun e he => (startJob_records hst).mem he) hno ?_
    intro u d hu
    rcases update_eq_some hu with ⟨rfl, hx⟩ | ⟨-, hu⟩
    · refine Or.inr ⟨hstarted d (Option.some.inj hx), ?_⟩
      intro e he het
      exact Nat.lt_irrefl _ ((Policy.Reachable.ordered h₀ hC.1).tid_lt e he _ het)
    · exact Or.inl hu

/-- In every run only the goroutines of deliveries check dedup keys, each its own. -/
theorem reachable_asked (h₀ : s₀.log = []) {c : Conf (world D)} (hc : P.Reachable s₀ c) :
    ∃ st, AskInv D c.store.log st := by
  have hinit : AskInv D s₀.log fun _ => none := by
    rw [h₀]
    refine ⟨?_, ?_, ?_⟩
    · intro t d hd
      cases hd
    · intro e he
      cases he
    · intro e he
      cases he
  obtain ⟨st, -, hI⟩ := (asking D).sound (askInv_keeps h₀) h₀ hinit hc.strengthen
  exact ⟨st, hI⟩

end

-- ============================================================================
-- The deliveries that are skipped
-- ============================================================================

section

variable {D : Deployment} {h h₁ h₂ : Log} {st : Nat → Option Phase} {e : Event Ev} {d : Delivery}

theorem Ev.answered_iff {ev : Ev} {j : String} {r : Int64} :
    ev.answered = some (dedupKey j r) ↔ ev.asked = some (dedupKey j r) ∧ ev.lost = none := by
  unfold Ev.asked
  split
  · next ctx key value ttl reply now =>
      cases reply with
      | ok b => exact ⟨fun h => ⟨h, rfl⟩, fun h => h.1⟩
      | error err =>
          refine ⟨nofun, ?_⟩
          rintro ⟨hask, hlost⟩
          cases hask
          simp only [Ev.lost, checks_dedupKey] at hlost
          cases hlost
  · next hne =>
      refine iff_of_false ?_ nofun
      intro ha
      unfold Ev.answered at ha
      split at ha
      · exact hne _ _ _ _ _ _ rfl
      · cases ha

theorem Log.Delivered.asked (hd : h.Delivered D e d) : e.ev.asked = some d.key := by
  obtain ⟨reply, now, hev⟩ := consults_iff.mp hd.consults
  rw [hev]
  rfl

/-- Two checks of one key are those of deliveries with this key. -/
theorem AskInv.delivered_pair (hI : AskInv D h st) {x : Event Ev} {j : String} {r : Int64}
    (he : e ∈ h) (hx : x ∈ h) (hek : e.ev.asked = some (dedupKey j r))
    (hxk : x.ev.asked = some (dedupKey j r)) :
    ∃ d d', h.Delivered D e d ∧ h.Delivered D x d' ∧ d'.key = d.key := by
  obtain ⟨d, hd⟩ := hI.asked e he ⟨j, r, hek⟩
  obtain ⟨d', hd'⟩ := hI.asked x hx ⟨j, r, hxk⟩
  refine ⟨d, d', hd, hd', Option.some.inj ?_⟩
  rw [← hd'.asked, ← hd.asked, hek, hxk]

/-- The answered checks of the attempt that came before are those of other deliveries. -/
theorem AskInv.repeats_iff (hI : AskInv D (h₁ ++ e :: h₂) st) (hst : Stamped (h₁ ++ e :: h₂))
    (hd : Log.Delivered D (h₁ ++ e :: h₂) e d) :
    Log.Repeats D (h₁ ++ e :: h₂) e d (fun ev => ev.lost = none) ↔
      ∃ x ∈ h₂, x.ev.answered = some d.key := by
  constructor
  · rintro ⟨x, d', hd', -, hlt, hsame, hlost⟩
    refine ⟨x, hst.mem_later_iff.mpr ⟨hd'.mem, hlt⟩, Ev.answered_iff.mpr ⟨?_, hlost⟩⟩
    rw [hd'.asked, Delivery.sameAttempt_iff.mp hsame]
    rfl
  · rintro ⟨x, hx, ha⟩
    obtain ⟨hx, hlt⟩ := hst.mem_later_iff.mp hx
    obtain ⟨hask, hlost⟩ := Ev.answered_iff.mp ha
    obtain ⟨d', hd'⟩ := hI.asked x hx ⟨_, _, hask⟩
    refine ⟨x, d', hd', ?_, hlt, Delivery.sameAttempt_iff.mpr ?_, hlost⟩
    · -- a task checks once
      intro htid
      have heq := hI.once x hx e hd.mem ⟨_, _, hask⟩ ⟨_, _, hd.asked⟩ htid
      rw [heq] at hlt
      exact Nat.lt_irrefl _ hlt
    · rw [hd'.asked] at hask
      exact Option.some.inj hask

/-- Equal keys are keys of the same attempt, and while no key expires a delivery is skipped
    exactly when its check is answered and an earlier delivery whose check was answered carried
    the same JobID and RetryCount. -/
theorem skipped_iff_answered :
    (∀ (a b : String) (r s : Int64), dedupKey a r = dedupKey b s → a = b ∧ r = s) ∧
    ∀ (D : Deployment) (s₀ : Store), s₀.Unclaimed → ∀ c : Conf (world D),
      (unexpiredPolicy D).Reachable s₀ c → SkipsAnswered D c.store.log := by
  refine ⟨fun a b r s heq => dedupKey_injective heq, ?_⟩
  intro D s₀ h₀ c hc e d hd
  obtain ⟨st, hI⟩ := reachable_asked h₀.log hc
  have hst : Stamped c.store.log := (Policy.Reachable.ordered h₀.log hc).stamped
  have hright := reachable_right (fun ms s hkept => hkept) h₀ hc
  obtain ⟨h₁, h₂, hlog⟩ := List.append_of_mem hd.mem
  rw [hlog] at hd hI hst hright ⊢
  obtain ⟨reply, now, hev⟩ := consults_iff.mp hd.consults
  rw [hI.repeats_iff hst hd, hev, skips_check]
  cases reply with
  | error err =>
      rw [lost_check]
      exact iff_of_false nofun fun hno => nomatch hno.1
  | ok b =>
      have hrep := hright.here _ _ _ _ _ b now hev
      rw [Except.ok.injEq, hrep]
      exact (and_iff_right rfl).symm

end

/-- A message as the server may have stored it: there is a colon in its JobID, and its
    RetryCount is negative. -/
def oddMessage : Values :=
  match envelopeStruct.marshal { JobEnvelope.zero with jobID := "a:1", retryCount := -1 } with
  | .ok text => jobValues text
  | .error _ => []

/-- The worker that has checked the key of the message crashes, and the delivery to the next
    one is skipped. -/
theorem skipped_iff_answered_redelivery : ∃ c e d,
    (unexpiredPolicy (.ofDefaults true)).Reachable (oneHeld oddMessage) c ∧
    c.store.log.Delivered (.ofDefaults true) e d ∧ Deployment.Skips (.ofDefaults true) d e.ev := by
  obtain ⟨c, hc, e, he, x, hx, hne, hlt, hek, hxk, helost, hxlost⟩ : ∃ c,
      (unexpiredPolicy (.ofDefaults true)).Reachable (oneHeld oddMessage) c ∧
      ∃ e ∈ c.store.log, ∃ x ∈ c.store.log, x.tid ≠ e.tid ∧ x.seq < e.seq ∧
        e.ev.asked = some (dedupKey "a:1" (-1)) ∧ x.ev.asked = some (dedupKey "a:1" (-1)) ∧
        e.ev.lost = none ∧ x.ev.lost = none :=
    Policy.exists_reachable
      ([Action.env (Move.tick 60000), Action.start (Job.reclaim 1 1 0)] ++ steps 0 5 ++
        [Action.start (Job.process 0)] ++ steps 1 2 ++
        [Action.crash 1, Action.env (Move.tick 60000), Action.start (Job.reclaim 0 1 0)] ++
        steps 2 5 ++ [Action.start (Job.process 0)] ++ steps 3 2)
      (by decide +kernel) (by decide +kernel)
  obtain ⟨st, hI⟩ := reachable_asked rfl hc
  obtain ⟨d, d', hd, hd', hkey⟩ := hI.delivered_pair he hx hek hxk
  have hskip := skipped_iff_answered.2 (.ofDefaults true) (oneHeld oddMessage)
    ⟨rfl, fun _ _ => rfl⟩ c hc e d hd
  exact ⟨c, e, d, hc, hd, hskip.mpr
    ⟨helost, x, d', hd', hne, hlt, skipped_iff_answered.1 _ _ _ _ hkey, hxlost⟩⟩

/-- The check of the first delivery is lost and leaves no key: the second delivery of the
    message carries the same attempt and is not skipped. -/
theorem repeated_not_skipped : ∃ (D : Deployment) (c : Conf (world D)),
    (unexpiredPolicy D).Reachable Store.init c ∧ ¬ SkipsRepeated D c.store.log := by
  obtain ⟨c, hc, e, he, x, hx, hne, hlt, hek, hxk, hwon⟩ : ∃ c,
      (unexpiredPolicy (.ofDefaults true)).Reachable Store.init c ∧
      ∃ e ∈ c.store.log, ∃ x ∈ c.store.log, x.tid ≠ e.tid ∧ x.seq < e.seq ∧
        e.ev.asked = some (dedupKey "j" 0) ∧ x.ev.asked = some (dedupKey "j" 0) ∧
        e.ev.claimed ≠ none :=
    Policy.exists_reachable
      (oneJob _ ++ [Action.start (Job.process 0)] ++ steps 3 2 { fail := some "i/o timeout" } ++
        [Action.crash 3] ++ reclaimed _)
      (by decide +kernel) (by decide +kernel)
  obtain ⟨st, hI⟩ := reachable_asked rfl hc
  obtain ⟨d, d', hd, hd', hkey⟩ := hI.delivered_pair he hx hek hxk
  refine ⟨.ofDefaults true, c, hc, fun hskips => ?_⟩
  have hskip := (hskips e d hd).mpr
    ⟨x, d', hd', hne, hlt, Delivery.sameAttempt_iff.mpr hkey, trivial⟩
  -- the reply of a skipped delivery claims no key
  obtain ⟨reply, now, hev⟩ := consults_iff.mp hd.consults
  rw [hev, skips_check] at hskip
  rw [hev, hskip] at hwon
  exact hwon rfl

end LogPipeline.Cluster
