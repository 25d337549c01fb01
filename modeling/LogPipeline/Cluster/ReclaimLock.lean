/-
  LogPipeline.Cluster.ReclaimLock

  Mutual exclusion of the reclaim scans of a partition.

  A worker enters its scan by a SETNX with the reclaim interval as TTL, and the
  lock is neither renewed while the scan waits for permits nor released after it.
  While no lock expires under a worker that is still in its scan, at most one
  worker of a partition is (`reclaim_exclusive`): a second SETNX succeeds only
  after the claim of the first has expired.  A scan that outlives its lock is
  joined by another one (`reclaim_overlap`).
-/

import LogPipeline.Cluster.Control
import LogPipeline.Cluster.Jobs

namespace LogPipeline.Cluster

open Conc Go Redis Queue Bootstrap

-- ============================================================================
-- The property
-- ============================================================================

/-- The key that the newest SETNX of a task has set, with the time at which it
    expires. -/
def heldKey : List Ev → Option (String × Option Nat)
  | [] => none
  | .cmd _ (.setNX key _ ttl) (.ok true) now :: _ => some (key, expiry now ttl)
  | .cmd _ (.setNX ..) _ _ :: _ => none
  | _ :: o => heldKey o

/-- A call of `reclaimStale`. -/
def Op.inReclaim : Op → Bool
  | .redis _ (.xAutoClaim ..) => true
  | .ctxDone _ => true
  | .semAcquire _ => true
  | .goProcess .. => true
  | _ => false

/-- The worker whose semaphore a call waits for. -/
def Op.acquires : Op → Option Nat
  | .semAcquire run => some run
  | _ => none

theorem Op.acquires_eq_some {o : Op} {run : Nat} :
    o.acquires = some run ↔ o = .semAcquire run := by
  cases o <;> simp [Op.acquires]

section

variable {D : Deployment}

/-- The key, with its expiry, under which a task that has not returned from
    `reclaimStale` runs it. -/
def holding (c : Conf (world D)) (t : Nat) : Option (String × Option Nat) :=
  if (nextCall c t).any Op.inReclaim then heldKey (c.store.log.own t) else none

/-- The task is between a successful SETNX on the reclaim lock of the partition and
    the return of the `reclaimStale` it guards. -/
def InSection (c : Conf (world D)) (t : Nat) (partitionID : Int64) : Prop :=
  (holding c t).map Prod.fst = some (Worker.reclaimLockKey partitionID)

instance (c : Conf (world D)) (t : Nat) (p : Int64) : Decidable (InSection c t p) :=
  inferInstanceAs (Decidable (_ = _))

/-- At most one worker of each partition scans. -/
def Exclusive (c : Conf (world D)) : Prop :=
  ∀ t t' p, InSection c t p → InSection c t' p → t = t'

/-- The clock does not reach the expiry of a lock under which a worker scans. -/
def LockOutlives (c : Conf (world D)) : Action (world D) → Prop
  | .env (.tick ms) => ∀ t < c.next, ∀ h ∈ holding c t, ∀ x ∈ h.2, c.store.now + ms < x
  | _ => True

instance (c : Conf (world D)) : ∀ a, Decidable (LockOutlives c a)
  | .env (.tick ms) =>
      inferInstanceAs (Decidable (∀ t < c.next, ∀ h ∈ holding c t, ∀ x ∈ h.2,
        c.store.now + ms < x))
  | .env (.cancel _) => isTrue trivial
  | .step _ _ => isTrue trivial
  | .crash _ => isTrue trivial
  | .start _ => isTrue trivial

-- ============================================================================
-- Locks and stages
-- ============================================================================

/-- What the stage of a task says about its newest SETNX. -/
def LockOf (D : Deployment) (o : List Ev) : Stage → Prop
  | .polling _ => heldKey o = none
  | .polled _ => heldKey o = none
  | .reclaiming run => ∃ x, heldKey o = some (Worker.reclaimLockKey (D.partition run), x)
  | .reclaimed run => ∃ x, heldKey o = some (Worker.reclaimLockKey (D.partition run), x)
  | _ => True

/-- The stages from which `reclaimStale` makes its calls. -/
def Stage.scans (run : Nat) : Stage → Prop
  | .reclaiming r => r = run
  | .reclaimed r => r = run
  | _ => False

theorem heldKey_claims {o : List Ev} {key : String} {x : Option Nat}
    (h : heldKey o = some (key, x)) : ∃ ev ∈ o, ev.Claims key x := by
  induction o with
  | nil => cases h
  | cons ev o ih =>
      unfold heldKey at h
      split at h
      · next heq => cases heq
      · next ctx k value ttl now o' heq =>
          cases heq
          cases h
          exact ⟨_, List.mem_cons_self .., ctx, value, ttl, now, rfl, rfl⟩
      · cases h
      · next heq =>
          cases heq
          obtain ⟨ev', hmem, hclaims⟩ := ih h
          exact ⟨ev', List.mem_cons_of_mem _ hmem, hclaims⟩

/-- A call other than SETNX leaves the newest SETNX of the task as it was. -/
theorem heldKey_exec {t : Nat} {ch : Choice} {o : Op} {s s' : Store} {r : o.Res}
    (hex : exec D t ch o s = some (r, s'))
    (ho : ∀ ctx key value ttl, o ≠ .redis ctx (.setNX key value ttl)) :
    heldKey (s'.log.own t) = heldKey (s.log.own t) := by
  have hrec : ∀ {s₁ : Store} {ev : Ev}, s₁.log = s.log → (∀ l, heldKey (ev :: l) = heldKey l) →
      heldKey ((s₁.record (some t) ev).log.own t) = heldKey (s.log.own t) := by
    intro s₁ ev hlog hev
    rw [own_record, hlog, hev]
  cases o with
  | redis ctx c =>
      obtain ⟨s₁, hans, rfl⟩ := exec_redis hex
      refine hrec (answer_frame hans).log fun l => ?_
      cases c <;> first | rfl | exact absurd rfl (ho _ _ _ _)
  | semAcquire run =>
      simp only [exec] at hex
      split at hex
      · cases hex
        rfl
      · split at hex
        · cases hex
          rfl
        · cases hex
  | uuid =>
      cases hex
      exact hrec rfl fun _ => rfl
  | invoke e =>
      cases hex
      exact hrec rfl fun _ => rfl
  | await e =>
      cases hex
      exact hrec rfl fun _ => rfl
  | note n =>
      cases hex
      exact hrec rfl fun _ => rfl
  | jobEnd run =>
      cases hex
      exact hrec rfl fun _ => rfl
  | now =>
      cases hex
      rfl
  | ctxDone run =>
      cases hex
      rfl
  | timerOrDone run =>
      cases hex
      rfl
  | goProcess run e id =>
      cases hex
      rfl
  | jobBegin run =>
      cases hex
      rfl
  | jobDone run =>
      cases hex
      rfl

/-- The lock that a won SETNX of `tryReclaim` gives. -/
theorem heldKey_won {t run : Nat} {ch : Choice} {s s' : Store}
    (hex : exec D t ch (.redis (.worker run) (D.lockCmd run)) s = some (.ok true, s')) :
    heldKey (s'.log.own t) = some (Worker.reclaimLockKey (D.partition run),
      expiry s.now D.cfg.worker.reclaimInterval) := by
  obtain ⟨s₁, hans, rfl⟩ := exec_redis hex
  rw [own_record]
  rfl

/-- The calls of the automaton keep `LockOf`. -/
theorem LockOf.step {t : Nat} {ch : Choice} {o : Op} {r : o.Res} {s s' : Store} {x y : Stage}
    (h : LockOf D (s.log.own t) x) (hc : Control D x o r y)
    (hex : exec D t ch o s = some (r, s')) : LockOf D (s'.log.own t) y := by
  cases hc with
  | won => exact ⟨_, heldKey_won hex⟩
  | poll | read | backoff | acquire | refused | dispatch | claim | page | take | denied | hand =>
      simp only [LockOf] at h ⊢
      rw [heldKey_exec hex (by simp)]
      exact h
  | _ => trivial

/-- Into a scan a task gets by the SETNX; every other call that leaves it in the scan
    is one of the scan. -/
theorem scans_step {t : Nat} {ch : Choice} {o : Op} {r : o.Res} {s s' : Store} {x y : Stage}
    {run : Nat} (hc : Control D x o r y) (hex : exec D t ch o s = some (r, s'))
    (hy : y.scans run) :
    (o.inReclaim = true ∧ heldKey (s'.log.own t) = heldKey (s.log.own t)) ∨
    exec D t ch (.redis (.worker run) (D.lockCmd run)) s = some (.ok true, s') := by
  cases hc with
  | won =>
      obtain rfl := hy
      exact Or.inr hex
  | claim | page | take | denied | hand =>
      exact Or.inl ⟨rfl, heldKey_exec hex (by simp)⟩
  | _ => exact hy.elim

/-- A task whose next call is one of `reclaimStale` is in a loop. -/
theorem Control.inReclaim {x y : Stage} {o : Op} {r : o.Res} (h : Control D x o r y)
    (ho : o.inReclaim = true) :
    (∃ run, x = .polling run ∨ x = .polled run) ∨ ∃ run, x.scans run := by
  cases h with
  | poll | acquire | refused => exact Or.inl ⟨_, Or.inl rfl⟩
  | dispatch => exact Or.inl ⟨_, Or.inr rfl⟩
  | claim | page | take | denied | hand => exact Or.inr ⟨_, rfl⟩
  | @command run ctx c r hjob =>
      cases c with
      | xAutoClaim stream group consumer minIdle start count => exact hjob.elim
      | _ => cases ho
  | _ => cases ho

-- ============================================================================
-- The invariant
-- ============================================================================

theorem exec_now {t : Nat} {ch : Choice} {o : Op} {s s' : Store} {r : o.Res}
    (hex : exec D t ch o s = some (r, s')) : s'.now = s.now := by
  cases o with
  | redis ctx c =>
      obtain ⟨s₁, hans, rfl⟩ := exec_redis hex
      exact (answer_frame hans).now
  | semAcquire run =>
      simp only [exec] at hex
      split at hex
      · cases hex
        rfl
      · split at hex
        · cases hex
          rfl
        · cases hex
  | _ =>
      cases hex
      rfl

/-- Locks and stages agree, the locks of running scans are alive, and no two scans
    run under one key. -/
structure LockInv (D : Deployment) (c : Conf (world D)) (st : Nat → Option Stage) : Prop where
  link : ∀ t x, st t = some x → LockOf D (c.store.log.own t) x
  live : ∀ t key x, holding c t = some (key, x) → ∃ y, x = some y ∧ c.store.now < y
  excl : ∀ t t' key x x', holding c t = some (key, x) → holding c t' = some (key, x') → t = t'

theorem holding_eq_some {c : Conf (world D)} {t : Nat} {key : String} {x : Option Nat} :
    holding c t = some (key, x) ↔
      (∃ o, nextCall c t = some o ∧ o.inReclaim = true) ∧
      heldKey (c.store.log.own t) = some (key, x) := by
  unfold holding
  cases nextCall c t with
  | none => simp
  | some o => cases ho : o.inReclaim <;> simp [ho]

/-- A task that holds a key in `reclaimStale` is in a stage of the scan. -/
theorem scans_of_holding {c : Conf (world D)} {st : Nat → Option Stage} {t : Nat} {key : String}
    {x : Option Nat} (hf : Follows (control D) c st)
    (hlink : ∀ x, st t = some x → LockOf D (c.store.log.own t) x)
    (h : holding c t = some (key, x)) :
    ∃ y run, st t = some y ∧ y.scans run ∧ key = Worker.reclaimLockKey (D.partition run) := by
  obtain ⟨⟨o, hnext, hin⟩, hheld⟩ := holding_eq_some.mp h
  obtain ⟨k, htask⟩ := nextCall_eq_some.mp hnext
  obtain ⟨y, hy, hcall⟩ := hf.next htask
  obtain ⟨r⟩ := Op.res_nonempty o
  obtain ⟨y', hstep⟩ := hcall r
  have hlock := hlink y hy
  rcases hstep.inReclaim hin with ⟨run, rfl | rfl⟩ | ⟨run, hscan⟩
  · rw [show heldKey _ = none from hlock] at hheld
    cases hheld
  · rw [show heldKey _ = none from hlock] at hheld
    cases hheld
  · refine ⟨y, run, hy, hscan, ?_⟩
    cases y with
    | reclaiming r | reclaimed r =>
        obtain rfl := hscan
        obtain ⟨x', hx'⟩ := hlock
        rw [hheld] at hx'
        cases hx'
        rfl
    | _ => exact hscan.elim

/-- What a task holds depends on what is left of it and on its own log. -/
theorem holding_congr {c c' : Conf (world D)} {t : Nat} (htask : c'.tasks t = c.tasks t)
    (hown : c'.store.log.own t = c.store.log.own t) : holding c' t = holding c t := by
  unfold holding nextCall
  rw [htask, hown]

theorem expiry_reclaimInterval (now : Nat) :
    ∃ y, expiry now D.cfg.worker.reclaimInterval = some y ∧ now < y := by
  have hpos : 0 < D.cfg.worker.reclaimInterval := D.accepted.worker.reclaimInterval
  unfold expiry
  rw [if_pos hpos]
  exact ⟨_, rfl, by omega⟩

theorem any_of_reaches {c : Conf (world D)}
    (hc : Reaches Conf.apply LockOutlives (Conf.init Store.init) c) :
    Policy.any.Reachable Store.init c :=
  hc.mono fun c a _ => Policy.any_permits c a

/-- The task sets the reclaim lock of its worker. -/
structure Wins (D : Deployment) (s s' : Store) (t run : Nat) : Prop where
  free : ∀ e ∈ s.log, ∀ x, e.ev.Claims (Worker.reclaimLockKey (D.partition run)) x →
    ∃ y, x = some y ∧ y ≤ s.now
  held : heldKey (s'.log.own t) = some (Worker.reclaimLockKey (D.partition run),
    expiry s.now D.cfg.worker.reclaimInterval)

theorem wins_of_exec {t run : Nat} {ch : Choice} {s s' : Store} (ht : Tied D s)
    (hex : exec D t ch (.redis (.worker run) (D.lockCmd run)) s = some (.ok true, s')) :
    Wins D s s' t run := by
  refine ⟨?_, heldKey_won hex⟩
  obtain ⟨s₁, hans, -⟩ := exec_redis hex
  rcases answer_cases hans with ⟨-, hr, -⟩ | ⟨-, msg, -, hr, -⟩ | ⟨-, -, hrun⟩
  · cases hr
  · cases hr
  · exact runCmd_served ht hrun

/-- A claim under a live lock keeps every other SETNX from winning it. -/
theorem Wins.not_holding {c : Conf (world D)} {st : Nat → Option Stage} {s' : Store}
    {t u run : Nat} {x : Option Nat} (hw : Wins D c.store s' t run) (hI : LockInv D c st) :
    holding c u ≠ some (Worker.reclaimLockKey (D.partition run), x) := by
  intro h
  obtain ⟨y, rfl, hlive⟩ := hI.live _ _ _ h
  obtain ⟨ev, hev, hclaims⟩ := heldKey_claims (holding_eq_some.mp h).2
  obtain ⟨e, he, -, rfl⟩ := Log.mem_own.mp hev
  obtain ⟨z, hz, hle⟩ := hw.free e he _ hclaims
  cases hz
  omega

section

variable {c : Conf (world D)} {st : Nat → Option Stage} {t : Nat} {ch : Choice} {o : Op}
  {k : o.Res → Program Unit} {r : o.Res} {s' : Store} {x y : Stage}

theorem own_ne_of_exec {u : Nat} (hex : exec D t ch o c.store = some (r, s')) (hut : u ≠ t) :
    s'.log.own u = c.store.log.own u :=
  own_rely (Rely.of_records (exec_records hex) (by simpa using Ne.symm hut))

theorem LockInv.link_call (hI : LockInv D c st)
    (hcall : CallStep (control D) c st t ch o k r s' x y) (u : Nat) (z : Stage)
    (hz : Function.update st t (some y) u = some z) : LockOf D (s'.log.own u) z := by
  rcases update_eq_some hz with ⟨rfl, hnew⟩ | ⟨hut, hz⟩
  · cases hnew
    exact (hI.link _ _ hcall.stage).step hcall.next hcall.exec
  · rw [own_ne_of_exec hcall.exec hut]
    exact hI.link u z hz

/-- Who runs a scan after a call ran it before, or has just won the lock. -/
theorem LockInv.holding_call (hI : LockInv D c st)
    (hcall : CallStep (control D) c st t ch o k r s' x y)
    (hf : Follows (control D) (Conf.setTask (W := world D) ⟨s', c.tasks, c.next⟩ t (some (k r)))
      (Function.update st t (some y))) (ht : Tied D c.store) {u : Nat} {key : String}
    {z : Option Nat}
    (h : holding (D := D) (Conf.setTask ⟨s', c.tasks, c.next⟩ t (some (k r))) u = some (key, z)) :
    holding c u = some (key, z) ∨
      (u = t ∧ ∃ run, key = Worker.reclaimLockKey (D.partition run) ∧
        z = expiry c.store.now D.cfg.worker.reclaimInterval ∧ Wins D c.store s' t run) := by
  by_cases hut : u = t
  · subst hut
    have hheld : heldKey (s'.log.own u) = some (key, z) := (holding_eq_some.mp h).2
    obtain ⟨w, run, hw, hscan, rfl⟩ := scans_of_holding hf (hI.link_call hcall u) h
    rw [Function.update_self] at hw
    cases hw
    rcases scans_step hcall.next hcall.exec hscan with ⟨hin, hkeep⟩ | hwon
    · left
      refine holding_eq_some.mpr ⟨⟨o, nextCall_eq_some.mpr ⟨k, hcall.task⟩, hin⟩, ?_⟩
      rw [← hkeep, hheld]
    · right
      have hwins := wins_of_exec ht hwon
      have hz := hwins.held
      rw [hheld] at hz
      cases hz
      exact ⟨rfl, run, rfl, rfl, hwins⟩
  · left
    have htask : Function.update c.tasks t (some (k r)) u = c.tasks u :=
      Function.update_of_ne hut ..
    rw [← h]
    exact (holding_congr htask (own_ne_of_exec hcall.exec hut)).symm

theorem LockInv.call (hI : LockInv D c st)
    (hcall : CallStep (control D) c st t ch o k r s' x y)
    (hf : Follows (control D) (Conf.setTask (W := world D) ⟨s', c.tasks, c.next⟩ t (some (k r)))
      (Function.update st t (some y))) (ht : Tied D c.store) :
    LockInv D (Conf.setTask ⟨s', c.tasks, c.next⟩ t (some (k r)))
      (Function.update st t (some y)) := by
  refine ⟨hI.link_call hcall, ?_, ?_⟩
  · intro u key z h
    have hnow : s'.now = c.store.now := exec_now hcall.exec
    show ∃ y, z = some y ∧ s'.now < y
    rw [hnow]
    rcases hI.holding_call hcall hf ht h with h | ⟨-, run, -, rfl, -⟩
    · exact hI.live u key z h
    · exact expiry_reclaimInterval _
  · intro u u' key z z' h h'
    rcases hI.holding_call hcall hf ht h with hold | ⟨rfl, run, rfl, -, hwins⟩
    · rcases hI.holding_call hcall hf ht h' with hold' | ⟨rfl, run, rfl, -, hwins⟩
      · exact hI.excl u u' key z z' hold hold'
      · exact absurd hold (hwins.not_holding hI)
    · rcases hI.holding_call hcall hf ht h' with hold' | ⟨rfl, -⟩
      · exact absurd hold' (hwins.not_holding hI)
      · rfl

end

/-- A smaller set of scans keeps the invariant. -/
theorem LockInv.of_le {c c' : Conf (world D)} {st st' : Nat → Option Stage}
    (hI : LockInv D c st) (hlink : ∀ t x, st' t = some x → LockOf D (c'.store.log.own t) x)
    (hle : ∀ t h, holding c' t = some h → holding c t = some h)
    (hnow : ∀ t key x, holding c t = some (key, some x) → c.store.now < x → c'.store.now < x) :
    LockInv D c' st' := by
  refine ⟨hlink, ?_, ?_⟩
  · intro t key x h
    obtain ⟨y, rfl, hlive⟩ := hI.live t key x (hle t _ h)
    exact ⟨y, rfl, hnow t key y (hle t _ h) hlive⟩
  · intro t t' key x x' h h'
    exact hI.excl t t' key x x' (hle t _ h) (hle t' _ h')

theorem LockInv.drop {c : Conf (world D)} {st : Nat → Option Stage} (hI : LockInv D c st)
    (t : Nat) : LockInv D (c.setTask t none) (Function.update st t none) := by
  refine hI.of_le ?_ ?_ (fun _ _ _ _ h => h)
  · intro u x hu
    rcases update_eq_some hu with ⟨-, hnone⟩ | ⟨-, hu⟩
    · cases hnone
    · exact hI.link u x hu
  · intro u h hu
    by_cases hut : u = t
    · subst hut
      simp [holding, nextCall, Conf.setTask] at hu
    · have htask : (c.setTask t none).tasks u = c.tasks u := Function.update_of_ne hut ..
      rw [← hu]
      exact (holding_congr htask rfl).symm

/-- A new task has no lock. -/
theorem heldKey_start {t : Nat} {j : Job} {s s' : Store} {p : Program Unit}
    (ho : s.log.own t = []) (hst : startJob D t j s = some (p, s')) :
    heldKey (s'.log.own t) = none := by
  cases j with
  | process index =>
      simp only [startJob] at hst
      split at hst
      · cases hst
        rw [own_record]
        show heldKey (s.log.own t) = none
        rw [ho]
        rfl
      · cases hst
  | _ =>
      cases hst
      rw [ho]
      rfl

theorem lockOf_stage {s : Store} {o : List Ev} (ho : heldKey o = none) (j : Job) :
    LockOf D o (j.stage s) := by
  cases j with
  | poll run rounds => exact ho
  | process index =>
      simp only [Job.stage]
      split <;> trivial
  | _ => trivial

theorem startJob_now {t : Nat} {j : Job} {s s' : Store} {p : Program Unit}
    (hst : startJob D t j s = some (p, s')) : s'.now = s.now := by
  cases j with
  | process index =>
      simp only [startJob] at hst
      split at hst <;> cases hst
      rfl
  | _ =>
      cases hst
      rfl

theorem LockInv.start {c : Conf (world D)} {st : Nat → Option Stage} {j : Job} {s' : Store}
    {p : Program Unit} (hI : LockInv D c st) (ho : c.Ordered)
    (hst : startJob D c.next j c.store = some (p, s')) :
    LockInv D (Conf.setTask ⟨s', c.tasks, c.next + 1⟩ c.next (some p))
      (Function.update st c.next (some (j.stage c.store))) := by
  have hfresh : c.store.log.own c.next = [] :=
    own_eq_nil fun e he htid => Nat.lt_irrefl _ (ho.tid_lt e he _ htid)
  have hnone := heldKey_start hfresh hst
  have hother : ∀ u, u ≠ c.next → s'.log.own u = c.store.log.own u := fun u hu =>
    own_rely (D := D) (Rely.of_records (startJob_records hst) (by simpa using Ne.symm hu))
  refine hI.of_le ?_ ?_ ?_
  · intro u x hu
    rcases update_eq_some hu with ⟨rfl, hnew⟩ | ⟨hun, hu⟩
    · cases hnew
      exact lockOf_stage hnone j
    · have := hI.link u x hu
      rwa [← hother u hun] at this
  · intro u ⟨key, x⟩ hu
    by_cases hun : u = c.next
    · subst hun
      have hheld : heldKey (s'.log.own c.next) = some (key, x) := (holding_eq_some.mp hu).2
      rw [hnone] at hheld
      cases hheld
    · have htask : Function.update c.tasks c.next (some p) u = c.tasks u :=
        Function.update_of_ne hun ..
      rw [← hu]
      exact (holding_congr htask (hother u hun)).symm
  · intro u key x _ hlt
    show s'.now < x
    rw [startJob_now hst]
    exact hlt

/-- Every step under which the locks of running scans do not expire keeps the
    invariant. -/
theorem lockInv_keeps : (control D).Keeps
    (fun c a => Reaches Conf.apply LockOutlives (Conf.init Store.init) c ∧ LockOutlives c a)
    (LockInv D) where
  call := fun hI hC hcall hf => hI.call hcall hf (reachable_valid (any_of_reaches hC.1)).2
  ret := fun hI _ _ _ => hI.drop _
  crash := fun hI _ => hI.drop _
  env := by
    intro c st m s' hI hC hm
    have hord := Policy.Reachable.ordered rfl (any_of_reaches hC.1)
    have hlog : ∀ u, s'.log.own u = c.store.log.own u := fun u =>
      own_rely (D := D) (Rely.of_records (move_records hm) (by simp))
    refine hI.of_le ?_ ?_ ?_
    · intro u x hu
      show LockOf D (s'.log.own u) x
      rw [hlog u]
      exact hI.link u x hu
    · intro u h hu
      have hsame : holding (D := D) ⟨s', c.tasks, c.next⟩ u = holding c u :=
        holding_congr rfl (hlog u)
      rw [← hsame]
      exact hu
    · intro u key x hu hlt
      cases m with
      | tick ms =>
          cases hm
          obtain ⟨⟨o, hnext, -⟩, -⟩ := holding_eq_some.mp hu
          obtain ⟨k, htask⟩ := nextCall_eq_some.mp hnext
          exact hC.2 u (hord.task_lt u (by simp [htask])) _ hu _ rfl
      | cancel run =>
          cases hm
          exact hlt
  start := by
    intro c st j p s' hI hfree hC hst
    have hord := Policy.Reachable.ordered rfl (any_of_reaches hC.1)
    exact ⟨_, typed_start hst, hI.start hord hst⟩

/-- As long as no lock expires under a worker that is still in its scan, at most one
    worker of each partition scans. -/
theorem reclaim_exclusive {c : Conf (world D)}
    (hc : Reaches Conf.apply LockOutlives (Conf.init Store.init) c) : Exclusive c := by
  have hinit : LockInv D (Conf.init Store.init) fun _ => none := by
    refine ⟨?_, ?_, ?_⟩
    · intro t x h
      cases h
    · intro t key x h
      cases h
    · intro t t' key x x' h
      cases h
  obtain ⟨st, -, hI⟩ := (control D).sound lockInv_keeps rfl hinit hc.strengthen
  intro t t' p h h'
  obtain ⟨⟨key, x⟩, hx, rfl⟩ := Option.map_eq_some_iff.mp h
  obtain ⟨⟨key', x'⟩, hx', rfl⟩ := Option.map_eq_some_iff.mp h'
  exact hI.excl t t' _ x x' hx hx'

end

/-- Two workers of partition 0. -/
def twoWorkers : Deployment :=
  { Deployment.ofDefaults false with
    workerID := fun run => if run = 0 then "worker-0" else "worker-1"
    partition_lt := Deployment.ofDefaults_partition_lt false }

/-- Worker 0 works on as many messages as it has permits.  They become idle enough to
    be reclaimed, and its scan waits for a permit; then the given time passes, and
    worker 1 tries to reclaim. -/
def slowScan (ms : Nat) : List (Action (world twoWorkers)) :=
  [.start .setupPartitions] ++ steps 0 3 ++
  [.start (.enqueue { LogEvent.zero with service := "a" })] ++
  steps 1 5 { uuid := "j", id := .of 1 0 } ++
  [.start (.enqueue { LogEvent.zero with service := "a" })] ++
  steps 2 5 { uuid := "k", id := .of 2 0 } ++
  [.start (.poll 0 2)] ++ steps 3 9 ++ [.start (.process 0), .start (.process 0)] ++
  [.env (.tick 60000), .start (.reclaim 0 1 1)] ++ steps 6 2 { scan := 9 } ++
  [.env (.tick ms), .start (.reclaim 1 1 1)] ++ steps 7 1

/-- While the lock is alive the scan that waits for a permit stays alone. -/
theorem reclaim_exclusive_waiting : ∃ c : Conf (world twoWorkers),
    Reaches Conf.apply LockOutlives (Conf.init Store.init) c ∧
    InSection c 6 0 ∧ ¬ InSection c 7 0 ∧ Exclusive c := by
  have hrun : ∃ c ∈ runFrom Conf.apply (Conf.init Store.init) (slowScan 29999),
      InSection c 6 0 ∧ ¬ InSection c 7 0 := by decide +kernel
  have hsteps : EveryStep Conf.apply LockOutlives (Conf.init Store.init) (slowScan 29999) := by
    decide +kernel
  obtain ⟨c, hc, hin, hout⟩ := hrun
  have hreach : Reaches Conf.apply LockOutlives (Conf.init Store.init) c := ⟨_, hc, hsteps⟩
  exact ⟨c, hreach, hin, hout, reclaim_exclusive hreach⟩

/-- The lock expires under a scan that waits for a permit, and both workers scan
    partition 0. -/
theorem reclaim_overlap : ∃ c : Conf (world twoWorkers),
    Policy.any.Reachable Store.init c ∧
    nextCall c 6 = some (.semAcquire 0) ∧
    (c.store.permits 0 : Int) = twoWorkers.cfg.worker.concurrency.toInt ∧
    InSection c 6 0 ∧ InSection c 7 0 ∧ ¬ Exclusive c := by
  obtain ⟨c, hc, hacq, hfull, hin, hin'⟩ : ∃ c : Conf (world twoWorkers),
      Policy.any.Reachable Store.init c ∧ (nextCall c 6).bind Op.acquires = some 0 ∧
      (c.store.permits 0 : Int) = twoWorkers.cfg.worker.concurrency.toInt ∧
      InSection c 6 0 ∧ InSection c 7 0 :=
    Policy.exists_reachable_any (slowScan 30000) (by decide +kernel)
  obtain ⟨o, ho, hrun⟩ := Option.bind_eq_some_iff.mp hacq
  rw [Op.acquires_eq_some.mp hrun] at ho
  refine ⟨c, hc, ho, hfull, hin, hin', fun hexcl => ?_⟩
  exact absurd (hexcl 6 7 0 hin hin') (by decide)

end LogPipeline.Cluster
