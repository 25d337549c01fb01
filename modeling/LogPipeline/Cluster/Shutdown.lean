/-
  LogPipeline.Cluster.Shutdown

  What happens to the messages in flight when the context of a worker is
  cancelled.

  `processMessage` runs the processor with a context of its own, but acknowledges
  and retries with the worker's context.  After the cancellation these commands
  are not sent any more, so when `Start` returns the messages that are settled
  are those that had been acknowledged when the context was cancelled
  (`shutdown_settles_iff`); a message whose `Process` was still running stays
  pending (`shutdown_unsettled`).
-/

import LogPipeline.Cluster.Faults

namespace LogPipeline.Cluster

open Conc Go Redis Queue Bootstrap

-- ============================================================================
-- The property
-- ============================================================================

/-- The log when it had `n` events. -/
def Log.first (h : Log) (n : Nat) : Log := h.drop (h.length - n)

/-- `Process` has returned this result to the task that handles the delivery. -/
def ProcessReturned (D : Deployment) (o : List Ev) (d : Delivery) (res : Option String) : Prop :=
  ∃ o', o' <:+ o ∧ Processed D d res o'

/-- The task has acknowledged its message. -/
def Acked (D : Deployment) (o : List Ev) (d : Delivery) : Prop :=
  ∃ ev ∈ o, ev.acked = some (D.stream d.run, D.group d.run, d.id)

instance (D : Deployment) (o : List Ev) (d : Delivery) : Decidable (Acked D o d) :=
  inferInstanceAs (Decidable (∃ ev ∈ o, _))

/-- The task has re-enqueued the failed job, its retry count incremented, or sent
    it to the dead letter queue. -/
def HandedOn (D : Deployment) (o : List Ev) (d : Delivery) (err : String) : Prop :=
  ∃ ev ∈ o, ∃ id, ev.jobAdded = some (D.stream d.run, id, d.failed err) ∨
    ev.entryAdded = some (D.dlq.streamName, id, d.failed err)

/-- The message of the delivery is settled, by the result of `Process`. -/
structure MessageSettled (D : Deployment) (o : List Ev) (d : Delivery) : Prop where
  ok : ProcessReturned D o d none → Acked D o d
  failed : ∀ err, ProcessReturned D o d (some err) → HandedOn D o d err ∧ Acked D o d

/-- Every goroutine of the run is over and none waits to be scheduled, as when
    `Start` returns. -/
structure Returned {D : Deployment} (c : Conf (world D)) (run : Nat) : Prop where
  ready : ∀ d ∈ c.store.ready, d.run ≠ run
  finished : ∀ t d, .started d ∈ c.store.log.own t → d.run = run →
    .finished run ∈ c.store.log.own t

/-- Redis answers every command it is sent. -/
@[reducible] def answeringPolicy (D : Deployment) : Policy (world D) where
  call := fun _ ch o _ => ∀ _ ∈ Op.command o, ch.fail = none
  env := fun _ _ => True
  start := fun _ _ => True
  crash := fun _ _ => True

-- ============================================================================
-- The result of a delivery
-- ============================================================================

section

variable {D : Deployment} {h : Log}

/-- `Process` returns once. -/
theorem Processed.result_unique {d : Delivery} {res res' : Option String} {o o' : List Ev}
    (hp : Processed D d res o) (hp' : Processed D d res' o') (hsuf : o <:+ o') : res = res' := by
  cases hp with
  | duplicate now hd =>
      cases hp' with
      | duplicate now' hd' => rfl
      | unchecked err' now' hd' => simp [List.suffix_cons_iff, Deployment.check] at hsuf
      | fresh now' res' hd' => simp [List.suffix_cons_iff, Deployment.check] at hsuf
      | plain res' hd' => simp [hd'] at hd
  | unchecked err now hd =>
      cases hp' with
      | duplicate now' hd' => simp [List.suffix_cons_iff, Deployment.check] at hsuf
      | unchecked err' now' hd' =>
          cases (List.cons.inj (hsuf.eq_of_length rfl)).1
          rfl
      | fresh now' res' hd' => simp [List.suffix_cons_iff, Deployment.check] at hsuf
      | plain res' hd' => simp [hd'] at hd
  | fresh now res hd =>
      cases hp' with
      | duplicate now' hd' => simp [List.suffix_cons_iff, Deployment.check] at hsuf
      | unchecked err' now' hd' => simp [List.suffix_cons_iff, Deployment.check] at hsuf
      | fresh now' res' hd' =>
          cases (List.cons.inj (hsuf.eq_of_length rfl)).1
          rfl
      | plain res' hd' => simp [hd'] at hd
  | plain res hd =>
      cases hp' with
      | duplicate now' hd' => simp [hd'] at hd
      | unchecked err' now' hd' => simp [hd'] at hd
      | fresh now' res' hd' => simp [hd'] at hd
      | plain res' hd' =>
          cases (List.cons.inj (hsuf.eq_of_length rfl)).1
          rfl

theorem ProcessReturned.unique {d : Delivery} {res res' : Option String} {o : List Ev}
    (hr : ProcessReturned D o d res) (hr' : ProcessReturned D o d res') : res = res' := by
  obtain ⟨o₁, hsuf₁, hp₁⟩ := hr
  obtain ⟨o₂, hsuf₂, hp₂⟩ := hr'
  rcases List.suffix_or_suffix_of_suffix hsuf₁ hsuf₂ with hsuf | hsuf
  · exact hp₁.result_unique hp₂ hsuf
  · exact (hp₂.result_unique hp₁ hsuf).symm

/-- A downstream call that returned is the result of `Process`. -/
theorem Deployment.Trace.processReturned {o : List Ev} (ht : D.Trace o) {d : Delivery}
    {e : JobEnvelope} {res : Option String} (hs : .started d ∈ o) (hr : .returned e res ∈ o) :
    ProcessReturned D o d res := by
  obtain ⟨o₁, o₂, ho, ⟨o', rfl⟩, ht₂⟩ := ht.split hr
  have hinv : D.May o' (.invoked e) := ht₂.1
  obtain ⟨d', rfl, hmay⟩ := hinv
  have hs' : .started d' ∈ o := by
    rw [ho]
    rcases hmay with ⟨-, now, rfl⟩ | ⟨-, rfl⟩ <;> simp
  obtain rfl := ht.started_unique hs hs'
  refine ⟨_, ⟨o₁, ho.symm⟩, ?_⟩
  rcases hmay with ⟨hd, now, rfl⟩ | ⟨hd, rfl⟩
  · exact .fresh now res hd
  · exact .plain res hd

/-- A delivery that is over has got its result. -/
theorem Ended.processReturned {d : Delivery} {o : List Ev} (he : Ended D d o) :
    ∃ res, ProcessReturned D o d res := by
  cases he with
  | acked hs =>
      cases hs with
      | done hp => exact ⟨_, _, List.suffix_cons .., hp⟩
      | copied hp hx ht =>
          exact ⟨_, _, (List.suffix_cons ..).trans (List.suffix_cons ..), hp⟩
      | buried hp hx ht =>
          exact ⟨_, _, (List.suffix_cons ..).trans (List.suffix_cons ..), hp⟩
  | stuck hp hx ht => exact ⟨_, _, List.suffix_cons .., hp⟩

theorem ProcessReturned.mono {d : Delivery} {o o' : List Ev} {res : Option String}
    (hr : ProcessReturned D o d res) (hsuf : o <:+ o') : ProcessReturned D o' d res := by
  obtain ⟨o₁, hsuf₁, hp⟩ := hr
  exact ⟨o₁, hsuf₁.trans hsuf, hp⟩

theorem ProcessReturned.started {d : Delivery} {o : List Ev} {res : Option String}
    (hr : ProcessReturned D o d res) : .started d ∈ o := by
  obtain ⟨o₁, hsuf, hp⟩ := hr
  exact hsuf.subset hp.started

theorem Valid.processReturned_of_finished (hv : Valid D h) {t : Nat} {d : Delivery}
    (hs : .started d ∈ h.own t) {run : Nat} (hf : .finished run ∈ h.own t) :
    ∃ res, ProcessReturned D (h.own t) d res := by
  obtain ⟨o₁, o₂, ho, ⟨d', -, hended⟩, ht₂⟩ := (hv.trace t).split hf
  have hsuf : o₂ <:+ h.own t := by
    rw [ho]
    exact (List.suffix_cons ..).trans (List.suffix_append ..)
  obtain ⟨res, hr⟩ := hended.processReturned
  have hr := hr.mono hsuf
  obtain rfl := (hv.trace t).started_unique hs hr.started
  exact ⟨res, hr⟩

-- ============================================================================
-- Acknowledgements and cancellation
-- ============================================================================

/-- An acknowledgement that was executed: the context was not done, and the
    delivery had been settled. -/
theorem Valid.of_acked (hv : Valid D h) {t : Nat} {d : Delivery} (hs : .started d ∈ h.own t)
    {h₁ h₂ : Log} {x : Event Ev} (hlog : h = h₁ ++ x :: h₂) (hxt : x.tid = some t)
    (hack : x.ev.acked = some (D.stream d.run, D.group d.run, d.id)) :
    ¬ h₂.Cancelled d.run ∧ Settled D d (h₂.own t) := by
  obtain ⟨ctx, n, now, hev⟩ := Ev.acked_eq_some.mp hack
  have hvx : Valid D (x :: h₂) := Valid.suffix (hlog ▸ hv)
  obtain ⟨-, hserved, hmay⟩ := hvx
  rw [hxt, hev] at hmay
  obtain ⟨d', rfl, -, hsettled⟩ := hmay
  have hs' : .started d' ∈ h.own t := by
    refine Log.own_mono (fun y hy => ?_) hsettled.started
    rw [hlog]
    exact Log.mem_of_before hy
  obtain rfl := (hv.trace t).started_unique hs hs'
  refine ⟨?_, hsettled⟩
  intro hcancel
  rw [hev] at hserved
  cases hserved.1 hcancel

/-- Nothing is acknowledged after the cancellation. -/
theorem Valid.acked_before (hv : Valid D h) {t : Nat} {d : Delivery} (hs : .started d ∈ h.own t)
    {h₁ h₂ : Log} {e : Event Ev} (hlog : h = h₁ ++ e :: h₂) (hcancel : e.ev = .cancelled d.run)
    (hack : Acked D (h.own t) d) : Acked D (h₂.own t) d := by
  obtain ⟨ev, hev, hack⟩ := hack
  obtain ⟨x, hx, hxt, rfl⟩ := Log.mem_own.mp hev
  rw [hlog] at hx
  rcases List.mem_append.mp hx with hx | hx
  · exfalso
    obtain ⟨a, b, rfl⟩ := List.append_of_mem hx
    rw [List.append_assoc, List.cons_append] at hlog
    refine (hv.of_acked hs hlog hxt hack).1 ⟨e, ?_, hcancel⟩
    simp
  · rcases List.mem_cons.mp hx with rfl | hx
    · rw [hcancel] at hack
      cases hack
    · exact ⟨x.ev, Log.mem_own.mpr ⟨x, hx, hxt, rfl⟩, hack⟩

/-- An XADD fails only with a context that is done. -/
def AddsAnswered (h : Log) : Prop :=
  ∀ h₁ e h₂, h = h₁ ++ e :: h₂ → ∀ ctx stream maxLen v err now,
    e.ev = .cmd ctx (.xAdd stream maxLen v) (.error err) now → Log.CtxDone h₂ ctx

theorem reachable_addsAnswered {c : Conf (world D)}
    (hc : (answeringPolicy D).Reachable Store.init c) : AddsAnswered c.store.log := by
  intro h₁ e h₂ hlog ctx stream maxLen v err now hev
  refine reachable_cmd (G := fun h ev => ev = .cmd ctx (.xAdd stream maxLen v) (.error err) now →
    h.CtxDone ctx) ?_ hc hlog ⟨_, _, _, _, hev⟩ hev
  intro x t ch ctx' cmd reply s₁ _ hp hans _ hev
  cases hev
  rcases answer_cases hans with ⟨hd, -⟩ | ⟨-, msg, hmsg, -⟩ | ⟨-, -, hrun⟩
  · exact hd
  · rw [hp _ rfl] at hmsg
    cases hmsg
  · cases (runCmd_xAdd hrun).1

/-- A message that is acknowledged is settled. -/
theorem Valid.messageSettled_of_acked (hv : Valid D h) (ha : AddsAnswered h) {t : Nat}
    {d : Delivery} (hs : .started d ∈ h.own t) (hack : Acked D (h.own t) d) :
    MessageSettled D (h.own t) d := by
  obtain ⟨ev, hev, hacked⟩ := id hack
  obtain ⟨x, hx, hxt, rfl⟩ := Log.mem_own.mp hev
  obtain ⟨h₁, h₂, rfl⟩ := List.append_of_mem hx
  obtain ⟨hctx, hsettled⟩ := hv.of_acked hs rfl hxt hacked
  have hsuf : Log.own h₂ t <:+ Log.own (h₁ ++ x :: h₂) t := by
    rw [Log.own_append, Log.own_cons_self hxt]
    exact (List.suffix_cons ..).trans (List.suffix_append ..)
  generalize ho : Log.own h₂ t = o at hsettled hsuf
  cases hsettled with
  | done hp =>
      refine ⟨fun _ => hack, fun err hr => ?_⟩
      cases hr.unique ⟨_, hsuf, hp⟩
  | @copied o err text id now hp hx ht =>
      have hr : ProcessReturned D (Log.own (h₁ ++ x :: h₂) t) d (some err) :=
        ⟨_, (List.suffix_cons ..).trans hsuf, hp⟩
      refine ⟨fun _ => hack, fun err' hr' => ⟨?_, hack⟩⟩
      cases hr.unique hr'
      refine ⟨_, hsuf.subset (List.mem_cons_self ..), id, Or.inl ?_⟩
      exact Ev.jobAdded_eq_some.mpr ⟨_, ⟨_, _, _, rfl⟩, job_jobValues ht⟩
  | @buried o err text clock reply now hp hx ht =>
      have hr : ProcessReturned D (Log.own (h₁ ++ x :: h₂) t) d (some err) :=
        ⟨_, (List.suffix_cons ..).trans hsuf, hp⟩
      refine ⟨fun _ => hack, fun err' hr' => ⟨?_, hack⟩⟩
      cases hr.unique hr'
      cases reply with
      | ok id =>
          refine ⟨_, hsuf.subset (List.mem_cons_self ..), id, Or.inr ?_⟩
          exact Ev.entryAdded_eq_some.mpr
            ⟨_, _, ⟨_, _, _, rfl⟩, letter_entryValues ht, rfl⟩
      | error e =>
          -- the context was done already, so the XACK cannot have been sent
          exfalso
          have hmem : .cmd (.worker d.run) (D.buryCmd text) (.error e) now ∈ Log.own h₂ t := by
            rw [ho]
            exact List.mem_cons_self ..
          obtain ⟨y, hy, -, hyev⟩ := Log.mem_own.mp hmem
          obtain ⟨a, b, rfl⟩ := List.append_of_mem hy
          have hdone := ha (h₁ ++ x :: a) y b (by simp) _ _ _ _ _ _ hyev
          refine hctx (Log.Cancelled.mono hdone ?_)
          exact fun z hz => Log.mem_of_before hz

-- ============================================================================
-- Shutdown
-- ============================================================================

/-- The log up to one of its events. -/
theorem Log.first_eq {h₁ h₂ : Log} {e : Event Ev} (hst : Stamped (h₁ ++ e :: h₂)) :
    Log.first (h₁ ++ e :: h₂) e.seq = h₂ := by
  have hseq : e.seq = h₂.length := by
    induction h₁ with
    | nil => exact hst.1
    | cons x h₁ ih => exact ih hst.2
  have hdrop : (h₁ ++ e :: h₂).length - e.seq = (h₁ ++ [e]).length := by
    rw [hseq]
    simp only [List.length_append, List.length_cons, List.length_nil]
    omega
  unfold Log.first
  rw [hdrop, show h₁ ++ e :: h₂ = (h₁ ++ [e]) ++ h₂ by simp, List.drop_left]

/-- When `Start` returns, the messages that were in flight at the cancellation are
    settled exactly if they had all been acknowledged by then. -/
theorem shutdown_settles_iff {c : Conf (world D)}
    (hc : (answeringPolicy D).Reachable Store.init c) {e : Event Ev} {run : Nat}
    (he : e ∈ c.store.log) (hcancel : e.ev = .cancelled run) (hret : Returned c run) :
    (∀ t d, .started d ∈ (c.store.log.first e.seq).own t → d.run = run →
      MessageSettled D (c.store.log.own t) d) ↔
    (∀ t d, .started d ∈ (c.store.log.first e.seq).own t → d.run = run →
      Acked D ((c.store.log.first e.seq).own t) d) := by
  have hv := (reachable_valid hc).1
  have hst := reachable_stamped hc
  have ha := reachable_addsAnswered hc
  obtain ⟨h₁, h₂, hlog⟩ := List.append_of_mem he
  have hfirst : c.store.log.first e.seq = h₂ := by
    rw [hlog] at hst ⊢
    exact Log.first_eq hst
  rw [hfirst]
  have hsub : ∀ x ∈ h₂, x ∈ c.store.log := by
    intro x hx
    rw [hlog]
    exact Log.mem_of_before hx
  refine forall_congr' fun t => forall_congr' fun d => forall_congr' fun hs =>
    forall_congr' fun hrun => ?_
  subst hrun
  have hs := Log.own_mono hsub hs
  constructor
  · intro hsettled
    obtain ⟨res, hr⟩ := hv.processReturned_of_finished hs (hret.finished t d hs rfl)
    have hack : Acked D (c.store.log.own t) d := by
      cases res with
      | none => exact hsettled.ok hr
      | some err => exact (hsettled.failed err hr).2
    exact hv.acked_before hs hlog hcancel hack
  · rintro ⟨ev, hev, hack⟩
    exact hv.messageSettled_of_acked ha hs ⟨ev, Log.own_mono hsub hev, hack⟩

end

-- ============================================================================
-- Runs
-- ============================================================================

/-- Both loops of a worker run, and one message is handed to `processMessage`. -/
def oneInFlight (D : Deployment) : List (Action (world D)) :=
  [.start .setupPartitions] ++ steps 0 3 ++
  [.start (.enqueue { LogEvent.zero with service := "a" })] ++
  steps 1 5 { uuid := "j", id := .of 1 0 } ++
  [.start (.reclaim 0 1 1)] ++ steps 2 2 ++ [.start (.poll 0 2)] ++ steps 3 4 ++
  [.start (.process 0)]

/-- The cancellation, after which both loops end. -/
def cancelled (D : Deployment) : List (Action (world D)) :=
  [.env (.cancel 0)] ++ steps 2 2 ++ steps 3 2

/-- The run in whose `processMessage` the task has ended. -/
def Ev.finishedRun : Ev → Option Nat
  | .finished run => some run
  | _ => none

theorem Ev.finishedRun_eq_some {ev : Ev} {run : Nat} :
    ev.finishedRun = some run ↔ ev = .finished run := by
  cases ev <;> simp [Ev.finishedRun]

/-- The message was acknowledged before the cancellation. -/
theorem shutdown_settles_idle : ∃ (c : Conf (world (.ofDefaults true))) (e : Event Ev),
    (answeringPolicy (.ofDefaults true)).Reachable Store.init c ∧ e ∈ c.store.log ∧
    e.ev = .cancelled 0 ∧ Returned c 0 ∧
    (∃ x ∈ c.store.log.first e.seq, x.ev.delivery ≠ none) ∧
    ∀ t d, .started d ∈ (c.store.log.first e.seq).own t → d.run = 0 →
      MessageSettled (.ofDefaults true) (c.store.log.own t) d := by
  obtain ⟨c, hc, hready, hfinished, e, he, hcancel, hsome, hacked⟩ : ∃ c,
      (answeringPolicy (.ofDefaults true)).Reachable Store.init c ∧
      (∀ d ∈ c.store.ready, d.run ≠ 0) ∧
      (∀ x ∈ c.store.log, ∀ d ∈ x.ev.delivery, ∀ t ∈ x.tid, d.run = 0 →
        ∃ ev ∈ c.store.log.own t, ev.finishedRun = some 0) ∧
      ∃ e ∈ c.store.log, e.ev.isCancel 0 = true ∧
        (∃ x ∈ c.store.log.first e.seq, x.ev.delivery.isSome = true) ∧
        ∀ x ∈ c.store.log.first e.seq, ∀ d ∈ x.ev.delivery, ∀ t ∈ x.tid, d.run = 0 →
          Acked (.ofDefaults true) ((c.store.log.first e.seq).own t) d :=
    Policy.exists_reachable (oneInFlight _ ++ steps 4 8 ++ cancelled _)
      (by decide +kernel) (by decide +kernel)
  have hcancel := Ev.isCancel_eq_true.mp hcancel
  have hret : Returned c 0 := by
    refine ⟨hready, Log.forall_started.mpr fun x hx d hd t ht hrun => ?_⟩
    obtain ⟨ev, hev, hf⟩ := hfinished x hx d hd t ht hrun
    rw [Ev.finishedRun_eq_some.mp hf] at hev
    exact hev
  obtain ⟨x, hx, hxd⟩ := hsome
  refine ⟨c, e, hc, he, hcancel, hret, ⟨x, hx, Option.isSome_iff_ne_none.mp hxd⟩, ?_⟩
  exact (shutdown_settles_iff hc he hcancel hret).mpr (Log.forall_started.mpr hacked)

/-- The context is cancelled while the downstream processor works: it returns nil,
    the message is not acknowledged, and everything has ended. -/
theorem shutdown_unsettled : ∃ (D : Deployment) (c : Conf (world D)) (e : Event Ev) (t : Nat)
    (d : Delivery), (answeringPolicy D).Reachable Store.init c ∧ e ∈ c.store.log ∧
    e.ev = .cancelled d.run ∧ c.store.ready = [] ∧ (∀ u, c.tasks u = none) ∧
    .started d ∈ (c.store.log.first e.seq).own t ∧
    ProcessReturned D (c.store.log.own t) d none ∧ ¬ Acked D (c.store.log.own t) d := by
  obtain ⟨c, hc, hready, htasks, ⟨y, hy, hsucc⟩, e, he, x, hx, d, hd, hcancel, hnack⟩ : ∃ c,
      (answeringPolicy (.ofDefaults true)).Reachable Store.init c ∧
      c.store.ready.isEmpty = true ∧ (∀ u < c.next, (c.tasks u).isNone = true) ∧
      (∃ y ∈ c.store.log.own 4, y.succeeded = some "j") ∧
      ∃ e ∈ c.store.log, ∃ x ∈ (c.store.log.first e.seq).own 4, ∃ d ∈ x.delivery,
        e.ev.isCancel d.run = true ∧ ¬ Acked (.ofDefaults true) (c.store.log.own 4) d :=
    Policy.exists_reachable (oneInFlight _ ++ steps 4 3 ++ cancelled _ ++ steps 4 5)
      (by decide +kernel) (by decide +kernel)
  have hv := (reachable_valid hc).1
  rw [Ev.delivery_eq_some.mp hd] at hx
  obtain ⟨job, rfl, -⟩ := Ev.succeeded_eq_some.mp hsucc
  have hs : .started d ∈ c.store.log.own 4 := Log.own_mono (fun _ => List.mem_of_mem_drop) hx
  refine ⟨_, c, e, 4, d, hc, he, Ev.isCancel_eq_true.mp hcancel, List.isEmpty_iff.mp hready, ?_, hx,
    (hv.trace 4).processReturned hs hy, hnack⟩
  intro u
  by_contra hu
  have hlt := (Policy.Reachable.ordered rfl hc).task_lt u hu
  exact hu (Option.isNone_iff_eq_none.mp (htasks u hlt))

end LogPipeline.Cluster
