/-
  LogPipeline.Cluster.Permits

  The concurrency bound of a worker.

  A permit is acquired by one of the two loops, handed over to the goroutine it
  starts and released by that goroutine.  In each stage of `Control` a task holds
  one permit or none, so the permits held are the goroutines that wait to be
  scheduled and the tasks in a stage with a permit; `reachable_held` is that
  invariant.  `permits_bounded` reads the bound off it.
-/

import LogPipeline.Cluster.Control
import LogPipeline.Cluster.Shutdown
import Mathlib.Data.List.Perm.Basic

namespace LogPipeline.Cluster

open Conc Go Redis Queue Bootstrap

-- ============================================================================
-- The property
-- ============================================================================

/-- The run for which a task that has logged this handles a message, from its start
    until it has released its permit. -/
def handling : List Ev → Option Nat
  | [] => none
  | .started d :: _ => some d.run
  | .finished _ :: _ => none
  | _ :: o => handling o

/-- The call starts the goroutine of a message. -/
def Op.spawns (run : Nat) : Op → Bool
  | .goProcess r _ _ => r == run
  | _ => false

section

variable {D : Deployment}

/-- The tasks that handle a message of the run: `processMessage` is in progress, or
    about to begin or to be counted off. -/
def inProgress (c : Conf (world D)) (run : Nat) : List Nat :=
  (List.range c.next).filter fun t => handling (c.store.log.own t) == some run

/-- The tasks that have acquired a permit and are about to dispatch a message. -/
def dispatching (c : Conf (world D)) (run : Nat) : List Nat :=
  (List.range c.next).filter fun t => (nextCall c t).any (Op.spawns run)

/-- The goroutines of the run that wait to be scheduled. -/
def waitingJobs (c : Conf (world D)) (run : Nat) : List Delivery :=
  c.store.ready.filter fun d => d.run == run

/-- What holds when `Start` has returned: no loop of the run is about to dispatch,
    and none of its goroutines waits or runs. -/
structure Stopped (c : Conf (world D)) (run : Nat) : Prop where
  loops : dispatching c run = []
  waiting : waitingJobs c run = []
  jobs : inProgress c run = []

/-- What the semaphore and the counter of a worker guarantee. -/
structure PermitsOk (D : Deployment) (c : Conf (world D)) (run : Nat) : Prop where
  bound : ((inProgress c run).length : Int) ≤ D.cfg.worker.concurrency.toInt
  held : c.store.permits run =
    (waitingJobs c run).length + (inProgress c run).length + (dispatching c run).length
  active_nonneg : 0 ≤ c.store.active run
  active_le : c.store.active run ≤ c.store.permits run
  /-- A release gives back a permit that is held. -/
  release : ∀ t, nextCall c t = some (.jobEnd run) →
    t ∈ inProgress c run ∧ 0 < c.store.permits run
  /-- A goroutine releases once. -/
  once : ∀ e ∈ c.store.log, ∀ e' ∈ c.store.log, ∀ r r', e.ev = .finished r →
    e'.ev = .finished r' → e.tid = e'.tid → e = e'
  stopped : Stopped c run → c.store.permits run = 0 ∧ c.store.active run = 0

/-- No task dies on its own: processors do not panic. -/
@[reducible] def noPanic (D : Deployment) : Policy (world D) :=
  { Policy.any with crash := fun _ _ => False }

-- ============================================================================
-- Stages with a permit
-- ============================================================================

/-- The run for which a task in this stage has acquired a permit to hand over. -/
def Stage.toDispatch : Stage → Option Nat
  | .polled run => some run
  | .reclaimed run => some run
  | _ => none

/-- The run for which a task in this stage handles a message. -/
def Stage.job : Stage → Option Nat
  | .spawned run => some run
  | .active run => some run
  | .closing run => some run
  | _ => none

/-- The run for which a task in this stage is counted in `activeJobs`. -/
def Stage.counted : Stage → Option Nat
  | .active run => some run
  | _ => none

/-- One if the stage is one of the run. -/
def oneIf (f : Stage → Option Nat) (run : Nat) (x : Stage) : Nat := if f x = some run then 1 else 0

/-- The permits a task in this stage holds. -/
def Stage.permits (run : Nat) (x : Stage) : Nat :=
  oneIf Stage.toDispatch run x + oneIf Stage.job run x

/-- What one call does to the worker's semaphore, its counter, its goroutines and
    the task's own log. -/
inductive Shift (D : Deployment) (s : Store) (o : List Ev) : Stage → Stage → Store → List Ev → Prop
  | quiet {x y : Stage} {s' : Store} {o' : List Ev} (hp : s'.permits = s.permits)
      (ha : s'.active = s.active) (hr : s'.ready = s.ready) (ho : handling o' = handling o)
      (hd : x.toDispatch = y.toDispatch) (hj : x.job = y.job) (hc : x.counted = y.counted) :
      Shift D s o x y s' o'
  | acquire {x y : Stage} {run : Nat}
      (hlt : (s.permits run : Int) < D.cfg.worker.concurrency.toInt)
      (hx : x.toDispatch = none ∧ x.job = none ∧ x.counted = none)
      (hy : y.toDispatch = some run ∧ y.job = none ∧ y.counted = none) :
      Shift D s o x y
        { s with permits := Function.update s.permits run (s.permits run + 1) } o
  | dispatch {x y : Stage} {run : Nat} {e : JobEnvelope} {id : StreamID}
      (hx : x.toDispatch = some run ∧ x.job = none ∧ x.counted = none)
      (hy : y.toDispatch = none ∧ y.job = none ∧ y.counted = none) :
      Shift D s o x y { s with ready := s.ready ++ [⟨run, e, id⟩] } o
  | enter {run : Nat} :
      Shift D s o (.spawned run) (.active run)
        { s with active := Function.update s.active run (s.active run + 1) } o
  | done {run : Nat} :
      Shift D s o (.active run) (.closing run)
        { s with active := Function.update s.active run (s.active run - 1) } o
  | release {run t : Nat} :
      Shift D s o (.closing run) .over
        ({ s with permits := Function.update s.permits run (s.permits run - 1) }.record (some t)
          (.finished run)) (.finished run :: o)

theorem shift_redis {t : Nat} {ch : Choice} {ctx : Ctx} {c : Cmd} {s s' : Store}
    {r : Except RedisError c.Reply} {x y : Stage}
    (hex : exec D t ch (.redis ctx c) s = some (r, s')) (hd : x.toDispatch = y.toDispatch)
    (hj : x.job = y.job) (hc : x.counted = y.counted) :
    Shift D s (s.log.own t) x y s' (s'.log.own t) := by
  obtain ⟨s₁, hans, rfl⟩ := exec_redis hex
  have hframe := answer_frame hans
  refine .quiet hframe.permits hframe.active hframe.ready ?_ hd hj hc
  rw [own_record, hframe.log]
  rfl

theorem shift_logged {t : Nat} {s : Store} {ev : Ev} {x y : Stage}
    (hev : ∀ o, handling (ev :: o) = handling o) (hd : x.toDispatch = y.toDispatch)
    (hj : x.job = y.job) (hc : x.counted = y.counted) :
    Shift D s (s.log.own t) x y (s.record (some t) ev) ((s.record (some t) ev).log.own t) := by
  refine .quiet rfl rfl rfl ?_ hd hj hc
  rw [own_record]
  exact hev _

theorem shift_semAcquire {t run : Nat} {ch : Choice} {s s' : Store} {x y : Stage}
    (hex : exec D t ch (.semAcquire run) s = some (true, s'))
    (hx : x.toDispatch = none ∧ x.job = none ∧ x.counted = none)
    (hy : y.toDispatch = some run ∧ y.job = none ∧ y.counted = none) :
    Shift D s (s.log.own t) x y s' (s'.log.own t) := by
  simp only [exec] at hex
  split at hex
  · cases hex
  · split at hex
    · next hlt =>
        cases hex
        exact .acquire hlt hx hy
    · cases hex

theorem shift_refused {t run : Nat} {ch : Choice} {s s' : Store} {x : Stage}
    (hex : exec D t ch (.semAcquire run) s = some (false, s')) :
    Shift D s (s.log.own t) x x s' (s'.log.own t) := by
  simp only [exec] at hex
  split at hex
  · cases hex
    exact .quiet rfl rfl rfl rfl rfl rfl rfl
  · split at hex <;> cases hex

/-- Every call that the automaton allows is one of these. -/
theorem exec_shift {t : Nat} {ch : Choice} {o : Op} {r : o.Res} {s s' : Store} {x y : Stage}
    (hc : Control D x o r y) (hex : exec D t ch o s = some (r, s')) :
    Shift D s (s.log.own t) x y s' (s'.log.own t) := by
  cases hc with
  | uuid =>
      cases hex
      exact shift_logged (fun _ => rfl) rfl rfl rfl
  | clock =>
      cases hex
      exact .quiet rfl rfl rfl rfl rfl rfl rfl
  | produce => exact shift_redis hex rfl rfl rfl
  | create => exact shift_redis hex rfl rfl rfl
  | enqueued =>
      cases hex
      exact shift_logged (fun _ => rfl) rfl rfl rfl
  | fetch => exact shift_redis hex rfl rfl rfl
  | requeue => exact shift_redis hex rfl rfl rfl
  | delete => exact shift_redis hex rfl rfl rfl
  | requeued =>
      cases hex
      exact shift_logged (fun _ => rfl) rfl rfl rfl
  | poll =>
      cases hex
      exact .quiet rfl rfl rfl rfl rfl rfl rfl
  | read => exact shift_redis hex rfl rfl rfl
  | backoff =>
      cases hex
      exact .quiet rfl rfl rfl rfl rfl rfl rfl
  | acquire => exact shift_semAcquire hex ⟨rfl, rfl, rfl⟩ ⟨rfl, rfl, rfl⟩
  | refused => exact shift_refused hex
  | dispatch =>
      cases hex
      exact .dispatch ⟨rfl, rfl, rfl⟩ ⟨rfl, rfl, rfl⟩
  | tick =>
      cases hex
      exact .quiet rfl rfl rfl rfl rfl rfl rfl
  | won => exact shift_redis hex rfl rfl rfl
  | lost h => exact shift_redis hex rfl rfl rfl
  | claim => exact shift_redis hex rfl rfl rfl
  | page =>
      cases hex
      exact .quiet rfl rfl rfl rfl rfl rfl rfl
  | take => exact shift_semAcquire hex ⟨rfl, rfl, rfl⟩ ⟨rfl, rfl, rfl⟩
  | denied => exact shift_refused hex
  | hand =>
      cases hex
      exact .dispatch ⟨rfl, rfl, rfl⟩ ⟨rfl, rfl, rfl⟩
  | leave =>
      cases hex
      exact .quiet rfl rfl rfl rfl rfl rfl rfl
  | enter =>
      cases hex
      exact .enter
  | command h => exact shift_redis hex rfl rfl rfl
  | time =>
      cases hex
      exact .quiet rfl rfl rfl rfl rfl rfl rfl
  | invoke =>
      cases hex
      exact shift_logged (fun _ => rfl) rfl rfl rfl
  | await =>
      cases hex
      exact shift_logged (fun _ => rfl) rfl rfl rfl
  | done =>
      cases hex
      exact .done
  | release =>
      cases hex
      rw [own_record]
      exact .release

-- ============================================================================
-- The invariant
-- ============================================================================

/-- The semaphore and the counter of the run agree with the stages of the tasks. -/
structure PermitsHeld (D : Deployment) (run : Nat) (s : Store) (n : Nat)
    (st : Nat → Option Stage) : Prop where
  held : s.permits run =
    (s.ready.filter fun d => d.run == run).length + tally (Stage.permits run) st n
  active : s.active run = tally (oneIf Stage.counted run) st n
  bound : (s.permits run : Int) ≤ D.cfg.worker.concurrency.toInt
  jobs : ∀ t, handling (s.log.own t) = (st t).bind Stage.job

theorem update_map_apply {β : Type} (g : β → β) (f : Nat → β) (i j : Nat) :
    Function.update f i (g (f i)) j = if i = j then g (f j) else f j := by
  by_cases hij : i = j
  · subst hij
    simp
  · simp [hij, Function.update_of_ne (Ne.symm hij)]

theorem length_filter_ready (l : List Delivery) (d : Delivery) (run : Nat) :
    ((l ++ [d]).filter fun d => d.run == run).length =
      (l.filter fun d => d.run == run).length + if d.run = run then 1 else 0 := by
  rw [List.filter_append, List.length_append]
  by_cases h : d.run = run <;> simp [h]

/-- One step, given what it does to the task's own log and to that of nobody
    else. -/
theorem PermitsHeld.shift {run n t : Nat} {s s' : Store} {st : Nat → Option Stage} {x y : Stage}
    (h : PermitsHeld D run s n st) (ht : t < n) (hx : st t = some x)
    (hs : Shift D s (s.log.own t) x y s' (s'.log.own t))
    (hothers : ∀ u, u ≠ t → s'.log.own u = s.log.own u) :
    PermitsHeld D run s' n (Function.update st t (some y)) := by
  have hheld := @tally_update _ (Stage.permits run) st n t ht (some y)
  have hcount := @tally_update _ (oneIf Stage.counted run) st n t ht (some y)
  simp only [hx, weight] at hheld hcount
  have hlink : handling (s'.log.own t) = y.job → ∀ u, handling (s'.log.own u) =
      (Function.update st t (some y) u).bind Stage.job := by
    intro hy u
    by_cases hut : u = t
    · subst hut
      rw [Function.update_self]
      exact hy
    · rw [Function.update_of_ne hut, hothers u hut]
      exact h.jobs u
  have hxjob : handling (s.log.own t) = x.job := by rw [h.jobs t, hx]; rfl
  have h1 := h.held
  have h2 := h.active
  have h3 := h.bound
  generalize s.log.own t = o at hs hxjob
  generalize s'.log.own t = o' at hs hlink
  cases hs with
  | quiet hp ha hr ho hd hj hc =>
      simp only [Stage.permits, oneIf, hd, hj, hc] at hheld hcount
      refine ⟨?_, ?_, ?_, hlink (ho.trans (hxjob.trans hj))⟩
      · rw [hp, hr, h1]
        omega
      · rw [ha, h2]
        omega
      · rw [hp]
        exact h3
  | @acquire _ _ run' hlt hx hy =>
      simp [Stage.permits, oneIf, hx, hy] at hheld hcount
      refine ⟨?_, ?_, ?_, hlink (hxjob.trans (hx.2.1.trans hy.2.1.symm))⟩ <;> dsimp only
      · rw [update_map_apply (· + 1)]
        split_ifs at hheld ⊢ <;> omega
      · omega
      · rw [update_map_apply (· + 1)]
        split
        next heq => exact heq ▸ hlt
        next => exact h3
  | @dispatch _ _ run' e id hx hy =>
      simp [Stage.permits, oneIf, hx, hy] at hheld hcount
      refine ⟨?_, ?_, h3, hlink (hxjob.trans (hx.2.1.trans hy.2.1.symm))⟩ <;> dsimp only
      · rw [length_filter_ready]
        split_ifs at hheld ⊢ <;> omega
      · omega
  | @enter run' =>
      simp [Stage.permits, oneIf, Stage.toDispatch, Stage.job, Stage.counted] at hheld hcount
      refine ⟨?_, ?_, h3, hlink hxjob⟩ <;> dsimp only
      · omega
      · rw [update_map_apply (· + 1)]
        split_ifs at hcount ⊢ <;> omega
  | @done run' =>
      simp [Stage.permits, oneIf, Stage.toDispatch, Stage.job, Stage.counted] at hheld hcount
      refine ⟨?_, ?_, h3, hlink hxjob⟩ <;> dsimp only
      · omega
      · rw [update_map_apply (· - 1)]
        split_ifs at hcount ⊢ <;> omega
  | @release run' t' =>
      simp [Stage.permits, oneIf, Stage.toDispatch, Stage.job, Stage.counted] at hheld hcount
      refine ⟨?_, ?_, ?_, hlink rfl⟩ <;> dsimp only [Store.record]
      · rw [update_map_apply (· - 1)]
        split_ifs at hheld ⊢ <;> omega
      · omega
      · rw [update_map_apply (· - 1)]
        split_ifs <;> omega

/-- A task that returns has no permit. -/
theorem PermitsHeld.drop {run n t : Nat} {s : Store} {st : Nat → Option Stage} {x : Stage}
    (h : PermitsHeld D run s n st) (ht : t < n) (hx : st t = some x) (hfinal : x.Final) :
    PermitsHeld D run s n (Function.update st t none) := by
  have hheld := @tally_update _ (Stage.permits run) st n t ht none
  have hcount := @tally_update _ (oneIf Stage.counted run) st n t ht none
  have hjob : x.job = none ∧ x.toDispatch = none ∧ x.counted = none := by
    cases x <;> first | exact ⟨rfl, rfl, rfl⟩ | exact hfinal.elim
  simp only [hx, weight, Stage.permits, oneIf, hjob] at hheld hcount
  refine ⟨?_, ?_, h.bound, ?_⟩
  · rw [h.held]
    simpa using hheld.symm
  · rw [h.active]
    simp at hcount
    omega
  · intro u
    by_cases hut : u = t
    · subst hut
      rw [Function.update_self, h.jobs u, hx]
      exact hjob.1
    · rw [Function.update_of_ne hut]
      exact h.jobs u

/-- A program that starts without a permit. -/
theorem PermitsHeld.idle {run n : Nat} {s : Store} {st : Nat → Option Stage} {x : Stage}
    (h : PermitsHeld D run s n st) (hfree : st n = none)
    (hx : x.toDispatch = none ∧ x.job = none ∧ x.counted = none) :
    PermitsHeld D run s (n + 1) (Function.update st n (some x)) := by
  refine ⟨?_, ?_, h.bound, ?_⟩
  · rw [tally_push, h.held]
    simp [weight, Stage.permits, oneIf, hx]
  · rw [tally_push, h.active]
    simp [weight, oneIf, hx]
  · intro t
    by_cases ht : t = n
    · subst ht
      rw [Function.update_self, h.jobs t, hfree]
      exact hx.2.1.symm
    · rw [Function.update_of_ne ht]
      exact h.jobs t

/-- The goroutine of a message is scheduled: it takes its permit over. -/
theorem PermitsHeld.schedule {run n index : Nat} {s : Store} {st : Nat → Option Stage}
    {d : Delivery} (h : PermitsHeld D run s n st) (hd : s.ready[index]? = some d) :
    PermitsHeld D run
      ({ s with ready := s.ready.eraseIdx index }.record (some n) (.started d)) (n + 1)
      (Function.update st n (some (.spawned d.run))) := by
  obtain ⟨hlt, hget⟩ := List.getElem?_eq_some_iff.mp hd
  -- the goroutine that leaves the list is the one that is started
  have hperm := (List.getElem_cons_eraseIdx_perm hlt).filter fun d => d.run == run
  have hlen := hperm.length_eq
  rw [hget, List.filter_cons] at hlen
  have hheld := h.held
  refine ⟨?_, ?_, h.bound, ?_⟩
  · rw [tally_push]
    show s.permits run = ((s.ready.eraseIdx index).filter fun d => d.run == run).length + _
    by_cases hrun : d.run = run
    · simp [hrun] at hlen
      simp [weight, Stage.permits, oneIf, Stage.toDispatch, Stage.job, hrun]
      omega
    · simp [hrun] at hlen
      simp [weight, Stage.permits, oneIf, Stage.toDispatch, Stage.job, hrun]
      omega
  · rw [tally_push]
    show s.active run = _
    rw [h.active]
    simp [weight, oneIf, Stage.counted]
  · intro t
    by_cases ht : t = n
    · subst ht
      rw [Function.update_self, own_record]
      rfl
    · rw [Function.update_of_ne ht, ← h.jobs t]
      exact congrArg handling (Log.own_cons_ne (by simpa using Ne.symm ht))

/-- Every step keeps the invariant. -/
theorem permitsHeld_keeps (run : Nat) :
    (control D).Keeps (noPanic D).Permits fun c st => PermitsHeld D run c.store c.next st where
  call := by
    intro c st t ch o k r s' x y h _ hcall _
    refine h.shift hcall.lt hcall.stage (exec_shift hcall.next hcall.exec) ?_
    intro u hut
    exact own_rely (Rely.of_records (exec_records hcall.exec) (by simpa using Ne.symm hut))
  ret := fun h ht hx hfinal => h.drop ht hx hfinal
  crash := by
    intro c st t _ hcrash
    exact hcrash.elim
  env := by
    intro c st m s' h _ hm
    cases m with
    | tick ms =>
        cases hm
        exact ⟨h.held, h.active, h.bound, h.jobs⟩
    | cancel run' =>
        cases hm
        refine ⟨h.held, h.active, h.bound, ?_⟩
        intro t
        rw [← h.jobs t]
        exact congrArg handling (Log.own_cons_ne (by simp))
  start := by
    intro c st j p s' h hfree _ hst
    refine ⟨j.stage c.store, typed_start hst, ?_⟩
    have hn : st c.next = none := hfree c.next (Nat.le_refl _)
    cases j with
    | process index =>
        simp only [startJob] at hst
        split at hst
        · next d hd =>
            cases hst
            simp only [Job.stage, hd]
            exact h.schedule hd
        · cases hst
    | enqueue ev =>
        cases hst
        exact h.idle hn ⟨rfl, rfl, rfl⟩
    | enqueueBatch evs =>
        cases hst
        exact h.idle hn ⟨rfl, rfl, rfl⟩
    | setupPartitions =>
        cases hst
        exact h.idle hn ⟨rfl, rfl, rfl⟩
    | poll run' rounds =>
        cases hst
        exact h.idle hn ⟨rfl, rfl, rfl⟩
    | reclaim run' pages ticks =>
        cases hst
        exact h.idle hn ⟨rfl, rfl, rfl⟩
    | requeue id stream maxLen =>
        cases hst
        exact h.idle hn ⟨rfl, rfl, rfl⟩

/-- The invariant holds in every reachable configuration. -/
theorem reachable_held {c : Conf (world D)} (hc : (noPanic D).Reachable Store.init c)
    (run : Nat) : ∃ st, Follows (control D) c st ∧ PermitsHeld D run c.store c.next st := by
  refine (control D).sound (permitsHeld_keeps run) rfl ⟨rfl, rfl, ?_, fun _ => rfl⟩ hc
  have hpos := Int64.lt_iff_toInt_lt.mp D.accepted.worker.concurrency_pos
  exact Int.le_of_lt hpos

-- ============================================================================
-- Reading the invariant
-- ============================================================================

theorem Control.spawns_iff {x y : Stage} {o : Op} {r : o.Res} (h : Control D x o r y) (run : Nat) :
    Op.spawns run o = true ↔ x.toDispatch = some run := by
  cases h <;> simp [Op.spawns, Stage.toDispatch]

/-- A task is about to dispatch a message exactly in the stages with a permit to
    hand over. -/
theorem spawns_iff_toDispatch {c : Conf (world D)} {st : Nat → Option Stage}
    (hf : Follows (control D) c st) (run t : Nat) :
    (nextCall c t).any (Op.spawns run) = true ↔
      ∃ x, st t = some x ∧ x.toDispatch = some run := by
  unfold nextCall
  cases htask : c.tasks t with
  | none => simp [hf.dead t htask]
  | some p =>
      obtain ⟨x, hx, htyped⟩ := hf.live t p htask
      cases p with
      | ret u =>
          have hnone : x.toDispatch = none := by
            cases x <;> first | rfl | exact htyped.elim
          simp [hx, hnone]
      | call o k =>
          obtain ⟨r⟩ := Op.res_nonempty o
          obtain ⟨y, hnext, -⟩ := htyped r
          simp only [hx, Option.some.injEq, exists_eq_left']
          exact hnext.spawns_iff run

theorem Control.job_of_release {x y : Stage} {run : Nat} {u : Unit}
    (h : Control D x (.jobEnd run) u y) : x.job = some run := by
  cases h
  rfl

theorem length_inProgress {c : Conf (world D)} {st : Nat → Option Stage} {run : Nat}
    (h : PermitsHeld D run c.store c.next st) :
    tally (oneIf Stage.job run) st c.next = (inProgress c run).length := by
  apply tally_eq_length
  intro t _
  rw [h.jobs t]
  cases st t with
  | none => rfl
  | some x => simp [weight, oneIf]

theorem length_dispatching {c : Conf (world D)} {st : Nat → Option Stage}
    (hf : Follows (control D) c st) (run : Nat) :
    tally (oneIf Stage.toDispatch run) st c.next = (dispatching c run).length := by
  apply tally_eq_length
  intro t _
  have hiff := spawns_iff_toDispatch hf run t
  cases hst : st t with
  | none =>
      rw [hst] at hiff
      simp [weight, hiff]
  | some x =>
      rw [hst] at hiff
      simp only [Option.some.injEq, exists_eq_left'] at hiff
      simp [weight, oneIf, hiff]

/-- Who is counted in `activeJobs` handles a message. -/
theorem counted_le_job (st : Nat → Option Stage) (run n : Nat) :
    tally (oneIf Stage.counted run) st n ≤ tally (oneIf Stage.job run) st n := by
  apply tally_le
  intro t _
  cases st t with
  | none => exact Nat.le_refl 0
  | some x => cases x <;> simp [weight, oneIf, Stage.counted, Stage.job]

theorem Processed.not_finished {d : Delivery} {res : Option String} {o : List Ev}
    (hp : Processed D d res o) (run : Nat) : .finished run ∉ o := by
  cases hp <;> simp [Deployment.check]

theorem Settled.not_finished {d : Delivery} {o : List Ev} (hs : Settled D d o) (run : Nat) :
    .finished run ∉ o := by
  cases hs with
  | done hp => exact hp.not_finished run
  | copied hp hx ht => simpa using hp.not_finished run
  | buried hp hx ht => simpa using hp.not_finished run

theorem Ended.not_finished {d : Delivery} {o : List Ev} (he : Ended D d o) (run : Nat) :
    .finished run ∉ o := by
  cases he with
  | acked hs => simpa using hs.not_finished run
  | stuck hp hx ht => simpa using hp.not_finished run

/-- A task logs one end. -/
theorem Valid.finished_once {h : Log} (hv : Valid D h) {e e' : Event Ev} (he : e ∈ h)
    (he' : e' ∈ h) {r r' : Nat} (hev : e.ev = .finished r) (hev' : e'.ev = .finished r')
    (htid : e.tid = e'.tid) : e = e' := by
  obtain ⟨h₁, h₂, -, hve⟩ := hv.upTo he
  obtain ⟨t, ht, -⟩ := hve.may (by simp [hev])
  refine hv.once (K := fun ev => ∃ run, ev = .finished run) ?_ he he' ht (htid ▸ ht) ⟨r, hev⟩
    ⟨r', hev'⟩
  rintro o ev - - hmay ⟨run, rfl⟩ ev' hmem ⟨run', rfl⟩
  obtain ⟨d, -, hended⟩ := hmay
  exact hended.not_finished run' hmem

/-- The concurrency bound, in every reachable state. -/
theorem permits_bounded {c : Conf (world D)} (hc : (noPanic D).Reachable Store.init c)
    (run : Nat) : PermitsOk D c run := by
  obtain ⟨st, hf, hinv⟩ := reachable_held hc run
  have hheld : c.store.permits run =
      (waitingJobs c run).length + (inProgress c run).length + (dispatching c run).length := by
    have hsplit : tally (Stage.permits run) st c.next =
        tally (oneIf Stage.toDispatch run) st c.next + tally (oneIf Stage.job run) st c.next :=
      tally_add
    rw [hinv.held, hsplit, length_inProgress hinv, length_dispatching hf run, waitingJobs]
    omega
  have hcount := counted_le_job st run c.next
  rw [length_inProgress hinv] at hcount
  have hactive := hinv.active
  have hbound := hinv.bound
  refine ⟨by omega, hheld, by omega, by omega, ?_, ?_, ?_⟩
  · intro t hnext
    obtain ⟨k, htask⟩ := nextCall_eq_some.mp hnext
    obtain ⟨x, hx, hcall⟩ := hf.next htask
    obtain ⟨y, hstep⟩ := hcall ()
    have hlt : t < c.next := (Policy.Reachable.ordered rfl hc).task_lt t (by simp [htask])
    have hmem : t ∈ inProgress c run := by
      refine List.mem_filter.mpr ⟨List.mem_range.mpr hlt, ?_⟩
      rw [hinv.jobs t, hx]
      exact beq_iff_eq.mpr hstep.job_of_release
    have hpos := List.length_pos_of_mem hmem
    exact ⟨hmem, by omega⟩
  · intro e he e' he' r r' hev hev' htid
    exact (reachable_valid hc).1.finished_once he he' hev hev' htid
  · rintro ⟨hloops, hwaiting, hjobs⟩
    rw [hloops, hwaiting, hjobs] at hheld
    rw [hjobs] at hcount
    simp at hheld hcount
    omega

end

/-- One message is being handled while both loops run. -/
theorem permits_bounded_oneInFlight : ∃ c,
    (noPanic (.ofDefaults true)).Reachable Store.init c ∧ inProgress c 0 = [4] ∧
    PermitsOk (.ofDefaults true) c 0 := by
  obtain ⟨c, hc, hjob⟩ : ∃ c, (noPanic (.ofDefaults true)).Reachable Store.init c ∧
      inProgress c 0 = [4] :=
    Policy.exists_reachable (oneInFlight _ ++ steps 4 2) (by decide +kernel) (by decide +kernel)
  exact ⟨c, hc, hjob, permits_bounded hc 0⟩

end LogPipeline.Cluster
