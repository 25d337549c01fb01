/-
  LogPipeline.Registry.Takeover

  Who owns the control plane lock, and who acts on it.

  - `ownerReconciles_iff`: the owner of the lock is in the reconcile loop all along a
    run exactly when no step of the run leaves it elsewhere.  The step that does in a
    run without faults is the `SETNX` of `waitForLock` on a free lock: `Start` then
    tries to acquire the lock again and finds it taken.
  - `touchesOwn_of_unraced`: `EXPIRE` and `DEL` are executed on the lock of the
    instance that issues them, if the lock does not change hands between the `GET`
    that checks the owner and the command.
-/

import LogPipeline.Registry.ControlPlane
import Mathlib.Data.Fintype.Basic

namespace LogPipeline.Registry

open Conc Go

variable {ι : Type}

-- ============================================================================
-- Commands
-- ============================================================================

/-- The command reaches Redis. -/
def Trip.sent : Trip → Bool
  | .ok | .lost _ => true
  | .unsent _ => false

/-- A command of instance `i` with this context is executed. -/
def Executed (s : State ι) (i : ι) (ctx : Ctx) (ch : Choice) : Prop :=
  ¬ (ctx = .caller ∧ s.done i = true) ∧ ch.trip.sent = true

instance (s : State ι) (i : ι) (ctx : Ctx) (ch : Choice) : Decidable (Executed s i ctx ch) :=
  inferInstanceAs (Decidable (_ ∧ _))

/-- A command of instance `i` with this context is executed and its reply is received. -/
def Answered (s : State ι) (i : ι) (ctx : Ctx) (ch : Choice) : Prop :=
  ¬ (ctx = .caller ∧ s.done i = true) ∧ ch.trip = .ok

theorem Answered.executed {s : State ι} {i : ι} {ctx : Ctx} {ch : Choice}
    (h : Answered s i ctx ch) : Executed s i ctx ch :=
  ⟨h.1, by rw [h.2]; rfl⟩

/-- A command is answered, executed without an answer, or neither. -/
theorem command_cases {ρ : Type} (s : State ι) (i : ι) (ctx : Ctx) (ch : Choice)
    (reply : Except Cluster.RedisError ρ × Option String) :
    (Answered s i ctx ch ∧ command s i ctx ch reply = reply) ∨
    (Executed s i ctx ch ∧ ¬ Answered s i ctx ch ∧
      ∃ err, command s i ctx ch reply = (.error err, reply.2)) ∨
    (¬ Executed s i ctx ch ∧ ¬ Answered s i ctx ch ∧
      ∃ err, command s i ctx ch reply = (.error err, s.lock)) := by
  unfold command Answered Executed
  split
  · next hdone => exact .inr (.inr ⟨fun h => h.1 hdone, fun h => h.1 hdone, _, rfl⟩)
  · next hdone =>
      cases htrip : ch.trip with
      | ok => exact .inl ⟨⟨hdone, rfl⟩, rfl⟩
      | unsent msg => exact .inr (.inr ⟨(nomatch ·.2), (nomatch ·.2), _, rfl⟩)
      | lost msg => exact .inr (.inl ⟨⟨hdone, rfl⟩, (nomatch ·.2), _, rfl⟩)

/-- The state after instance `i` moves to a place, the lock key being `lock`. -/
def State.move [DecidableEq ι] (s : State ι) (i : ι) (lock : Option String) (pc : Pc) : State ι :=
  { s with lock := lock, pc := Function.update s.pc i pc }

/-- The places of the reconcile loop, the way into it after `Start` has acquired the
    lock included. -/
def Pc.InLoop : Pc → Bool
  | .reconcile | .loop | .renewGet | .renewExpire | .releaseGet | .releaseDel => true
  | .start | .waiting | .waitAcquire | .stopped _ => false

/-- What one call of an instance can do: the lock key and the place after it. -/
inductive Move (F : Fleet ι) (s : State ι) (i : ι) (ch : Choice) : Option String → Pc → Prop
  /-- A `select`, or a whole `reconcile`. -/
  | quiet {pc : Pc} (hfrom : s.pc i = .reconcile ∨ s.pc i = .loop ∨ s.pc i = .waiting)
      (hloop : pc.InLoop = (s.pc i).InLoop) (hexp : pc ≠ .renewExpire) (hdel : pc ≠ .releaseDel) :
      Move F s i ch s.lock pc
  | acquired (hpc : s.pc i = .start) (hlock : s.lock = none) (hch : Answered s i .caller ch) :
      Move F s i ch (some (F.id i)) .reconcile
  | acquiredUnseen {err : Option String} (hpc : s.pc i = .start) (hlock : s.lock = none)
      (hch : Executed s i .caller ch) (hno : ¬ Answered s i .caller ch) :
      Move F s i ch (some (F.id i)) (.stopped err)
  | notAcquired {pc : Pc} (hpc : s.pc i = .start)
      (hno : s.lock = none → ¬ Executed s i .caller ch)
      (hto : pc = .waiting ∨ ∃ err, pc = .stopped err) :
      Move F s i ch s.lock pc
  | waitAcquired {pc : Pc} (hpc : s.pc i = .waitAcquire) (hlock : s.lock = none)
      (hch : Executed s i .caller ch) (hto : pc = .start ∨ pc = .waiting) :
      Move F s i ch (some (F.id i)) pc
  | waitNotAcquired (hpc : s.pc i = .waitAcquire)
      (hno : s.lock = none → ¬ Executed s i .caller ch) :
      Move F s i ch s.lock .waiting
  | renewChecked (hpc : s.pc i = .renewGet) (hown : s.lock = some (F.id i))
      (hch : Answered s i .caller ch) :
      Move F s i ch s.lock .renewExpire
  | renewRefused {err : Option String} (hpc : s.pc i = .renewGet)
      (hno : s.lock = some (F.id i) → ¬ Answered s i .caller ch) :
      Move F s i ch s.lock (.stopped err)
  | renewed (hpc : s.pc i = .renewExpire) (hch : Answered s i .caller ch) :
      Move F s i ch s.lock .loop
  | notRenewed {err : Option String} (hpc : s.pc i = .renewExpire)
      (hno : ¬ Answered s i .caller ch) :
      Move F s i ch s.lock (.stopped err)
  | releaseChecked (hpc : s.pc i = .releaseGet) (hown : s.lock = some (F.id i))
      (hch : Answered s i .background ch) :
      Move F s i ch s.lock .releaseDel
  | releaseRefused (hpc : s.pc i = .releaseGet)
      (hno : s.lock = some (F.id i) → ¬ Answered s i .background ch) :
      Move F s i ch s.lock (.stopped none)
  | released (hpc : s.pc i = .releaseDel) (hch : Executed s i .background ch) :
      Move F s i ch none (.stopped none)
  | notReleased (hpc : s.pc i = .releaseDel) (hno : ¬ Executed s i .background ch) :
      Move F s i ch s.lock (.stopped none)

section Replies

variable {s : State ι} {i : ι} {ctx : Ctx} {ch : Choice}

/-- `SETNX` takes a free lock, with or without an answer, or changes nothing. -/
theorem setNX_cases {key value : String} {ttl : Duration}
    {r : Except Cluster.RedisError Bool × Option String}
    (h : perform s i ch (.setNX ctx key value ttl) = some r) :
    (Answered s i ctx ch ∧ s.lock = none ∧ r = (.ok true, some value)) ∨
    (Executed s i ctx ch ∧ ¬ Answered s i ctx ch ∧ s.lock = none ∧
      ∃ err, r = (.error err, some value)) ∨
    ((s.lock = none → ¬ Executed s i ctx ch) ∧
      (r = (.ok false, s.lock) ∨ ∃ err, r = (.error err, s.lock))) := by
  obtain rfl := Option.some.inj h
  cases hlock : s.lock with
  | none =>
      rcases command_cases s i ctx ch (.ok true, some value) with
        ⟨ha, hr⟩ | ⟨he, hna, err, hr⟩ | ⟨hne, -, err, hr⟩
      · exact .inl ⟨ha, rfl, hr⟩
      · exact .inr (.inl ⟨he, hna, rfl, err, hr⟩)
      · exact .inr (.inr ⟨fun _ => hne, .inr ⟨err, hr.trans (by rw [hlock])⟩⟩)
  | some v =>
      refine .inr (.inr ⟨nofun, ?_⟩)
      rcases command_cases s i ctx ch (.ok false, some v) with
        ⟨-, hr⟩ | ⟨-, -, err, hr⟩ | ⟨-, -, err, hr⟩
      · exact .inl hr
      · exact .inr ⟨err, hr⟩
      · exact .inr ⟨err, hr.trans (by rw [hlock])⟩

/-- `GET` reads the lock, or fails. -/
theorem get_cases {key : String} {r : Except Cluster.RedisError String × Option String}
    (h : perform s i ch (.get ctx key) = some r) :
    (Answered s i ctx ch ∧ ∃ v, s.lock = some v ∧ r = (.ok v, s.lock)) ∨
    ((s.lock ≠ none → ¬ Answered s i ctx ch) ∧ ∃ err, r = (.error err, s.lock)) := by
  obtain rfl := Option.some.inj h
  cases hlock : s.lock with
  | none =>
      refine .inr ⟨(absurd rfl ·), ?_⟩
      rcases command_cases (ρ := String) s i ctx ch (.error .nil, none) with
        ⟨-, hr⟩ | ⟨-, -, err, hr⟩ | ⟨-, -, err, hr⟩
      · exact ⟨_, hr⟩
      · exact ⟨err, hr⟩
      · exact ⟨err, hr.trans (by rw [hlock])⟩
  | some v =>
      rcases command_cases s i ctx ch (.ok v, some v) with
        ⟨ha, hr⟩ | ⟨-, hna, err, hr⟩ | ⟨-, hna, err, hr⟩
      · exact .inl ⟨ha, v, rfl, hr⟩
      · exact .inr ⟨fun _ => hna, err, hr⟩
      · exact .inr ⟨fun _ => hna, err, hr.trans (by rw [hlock])⟩

theorem selectLoop_lock {r : LoopCase × Option String}
    (h : perform s i ch .selectLoop = some r) : ∃ c, r = (c, s.lock) := by
  simp only [perform] at h
  split at h <;> cases h
  exact ⟨_, rfl⟩

theorem selectWait_lock {r : WaitCase × Option String}
    (h : perform s i ch .selectWait = some r) : ∃ c, r = (c, s.lock) := by
  simp only [perform] at h
  split at h <;> cases h
  exact ⟨_, rfl⟩

end Replies

variable [DecidableEq ι]

/-- Every call of an instance is one of the moves. -/
theorem step_move {F : Fleet ι} {s s' : State ι} {i : ι} {ch : Choice}
    (h : step F s (.run i ch) = some s') :
    ∃ lock pc, Move F s i ch lock pc ∧ s' = s.move i lock pc := by
  obtain ⟨o, k, r, hact, hr, rfl⟩ := step_run h
  refine ⟨r.2, k r.1, ?_, rfl⟩
  cases hpc : s.pc i with
  | start =>
      rw [hpc] at hact
      cases hact
      rcases setNX_cases hr with ⟨ha, hl, rfl⟩ | ⟨he, hna, hl, err, rfl⟩ | ⟨hno, rfl | ⟨err, rfl⟩⟩
      · exact .acquired hpc hl ha
      · exact .acquiredUnseen hpc hl he hna
      · exact .notAcquired hpc hno (.inl rfl)
      · exact .notAcquired hpc hno (.inr ⟨_, rfl⟩)
  | reconcile =>
      rw [hpc] at hact
      cases hact
      cases hr
      exact .quiet (.inl hpc) (by rw [hpc]; rfl) nofun nofun
  | loop =>
      rw [hpc] at hact
      cases hact
      obtain ⟨c, rfl⟩ := selectLoop_lock hr
      cases c <;> exact .quiet (.inr (.inl hpc)) (by rw [hpc]; rfl) nofun nofun
  | renewGet =>
      rw [hpc] at hact
      cases hact
      rcases get_cases hr with ⟨ha, v, hv, rfl⟩ | ⟨hno, err, rfl⟩
      · by_cases hid : v = F.id i
        · rw [hid] at hv
          simpa [hid, Fleet.id] using Move.renewChecked hpc hv ha
        · have hne : v ≠ (F.plane i).id := hid
          simp only [hne, ne_eq, not_false_eq_true, if_true]
          exact .renewRefused hpc fun hown => absurd (Option.some.inj (hv.symm.trans hown)) hid
      · exact .renewRefused hpc fun hown => hno (by simp [hown])
  | renewExpire =>
      rw [hpc] at hact
      cases hact
      obtain rfl := Option.some.inj hr
      rcases command_cases s i .caller ch (.ok s.lock.isSome, s.lock) with
        ⟨ha, hc⟩ | ⟨-, hna, err, hc⟩ | ⟨-, hna, err, hc⟩ <;> rw [hc]
      · exact .renewed hpc ha
      · exact .notRenewed hpc hna
      · exact .notRenewed hpc hna
  | releaseGet =>
      rw [hpc] at hact
      cases hact
      rcases get_cases hr with ⟨ha, v, hv, rfl⟩ | ⟨hno, err, rfl⟩
      · by_cases hid : v = F.id i
        · rw [hid] at hv
          simpa [hid, Fleet.id] using Move.releaseChecked hpc hv ha
        · have hne : v ≠ (F.plane i).id := hid
          simp only [hne, ne_eq, not_false_eq_true, if_true]
          exact .releaseRefused hpc fun hown => absurd (Option.some.inj (hv.symm.trans hown)) hid
      · exact .releaseRefused hpc fun hown => hno (by simp [hown])
  | releaseDel =>
      rw [hpc] at hact
      cases hact
      obtain rfl := Option.some.inj hr
      rcases command_cases s i .background ch (.ok s.lock.toList.length, none) with
        ⟨ha, hc⟩ | ⟨he, -, err, hc⟩ | ⟨hne, -, err, hc⟩ <;> rw [hc]
      · exact .released hpc ha.executed
      · exact .released hpc he
      · exact .notReleased hpc hne
  | waiting =>
      rw [hpc] at hact
      cases hact
      obtain ⟨c, rfl⟩ := selectWait_lock hr
      cases c <;> exact .quiet (.inr (.inr hpc)) (by rw [hpc]; rfl) nofun nofun
  | waitAcquire =>
      rw [hpc] at hact
      cases hact
      rcases setNX_cases hr with ⟨ha, hl, rfl⟩ | ⟨he, hna, hl, err, rfl⟩ | ⟨hno, rfl | ⟨err, rfl⟩⟩
      · exact .waitAcquired hpc hl ha.executed (.inl rfl)
      · exact .waitAcquired hpc hl he (.inr rfl)
      · exact .waitNotAcquired hpc hno
      · exact .waitNotAcquired hpc hno
  | stopped err =>
      rw [hpc] at hact
      cases hact

-- ============================================================================
-- The owner is in the reconcile loop
-- ============================================================================

/-- The instance that owns the lock is in the reconcile loop. -/
def OwnerReconciles (F : Fleet ι) (s : State ι) : Prop :=
  ∀ i, s.lock = some (F.id i) → (s.pc i).InLoop = true

/-- The step does not leave the owner of the lock outside of the loop: `waitForLock` does
    not acquire a free lock, the reply to `Start`'s own `SETNX` is not lost, an owner that
    renews gets its replies, and one that releases the lock does release it. -/
def Orderly (F : Fleet ι) (s : State ι) : Action ι → Prop
  | .run i ch =>
      match s.pc i with
      | .start => s.lock = none → Executed s i .caller ch → Answered s i .caller ch
      | .waitAcquire => s.lock = none → ¬ Executed s i .caller ch
      | .renewGet | .renewExpire => s.lock = some (F.id i) → Answered s i .caller ch
      | .releaseGet => s.lock = some (F.id i) → Answered s i .background ch
      | .releaseDel => s.lock = some (F.id i) → Executed s i .background ch
      | .reconcile | .loop | .waiting | .stopped _ => True
  | .cancel _ | .expire => True

section Owner

variable {F : Fleet ι} {s s' : State ι} {i : ι} {pc : Pc}

/-- A move that keeps the lock matters only if the lock is the instance's own. -/
theorem ownerReconciles_move_same (h : OwnerReconciles F s) :
    OwnerReconciles F (s.move i s.lock pc) ↔ (s.lock = some (F.id i) → pc.InLoop = true) := by
  constructor
  · intro hm hown
    simpa [State.move] using hm i hown
  · intro hpc j hown
    by_cases hij : j = i
    · subst hij
      simpa [State.move] using hpc hown
    · simpa [State.move, hij] using h j hown

theorem ownerReconciles_move_none : OwnerReconciles F (s.move i none pc) :=
  fun _ hown => nomatch hown

theorem ownerReconciles_move_own :
    OwnerReconciles F (s.move i (some (F.id i)) pc) ↔ pc.InLoop = true := by
  constructor
  · intro hm
    simpa [State.move] using hm i rfl
  · intro hpc j hown
    have hij : i = j := F.id_injective i j (Option.some.inj hown)
    subst hij
    simpa [State.move] using hpc

omit [DecidableEq ι] in
/-- An instance outside of the loop does not own the lock. -/
theorem OwnerReconciles.not_own (h : OwnerReconciles F s) (hpc : (s.pc i).InLoop = false) :
    s.lock ≠ some (F.id i) := by
  intro hown
  simp [h i hown] at hpc

end Owner

/-- A step from a state whose owner reconciles. -/
theorem ownerReconciles_step {F : Fleet ι} {s s' : State ι} {a : Action ι}
    (h : OwnerReconciles F s) (hstep : step F s a = some s') :
    OwnerReconciles F s' ↔ Orderly F s a := by
  cases a with
  | cancel i =>
      cases hstep
      exact iff_of_true h trivial
  | expire =>
      obtain ⟨v, -, rfl⟩ := Option.map_eq_some_iff.mp hstep
      exact iff_of_true (fun _ hown => nomatch hown) trivial
  | run i ch =>
      obtain ⟨lock, pc, hmove, rfl⟩ := step_move hstep
      cases hmove with
      | quiet hfrom hloop =>
          rw [ownerReconciles_move_same h]
          refine iff_of_true (fun hown => hloop.trans (h i hown)) ?_
          rcases hfrom with hpc | hpc | hpc <;> simp [Orderly, hpc]
      | acquired hpc hlock hch =>
          rw [ownerReconciles_move_own]
          exact iff_of_true rfl (by simp [Orderly, hpc, hch])
      | acquiredUnseen hpc hlock hch hno =>
          rw [ownerReconciles_move_own]
          exact iff_of_false nofun (by simp [Orderly, hpc, hlock, hch, hno])
      | notAcquired hpc hno hto =>
          rw [ownerReconciles_move_same h]
          refine iff_of_true (absurd · (h.not_own (by rw [hpc]; rfl))) ?_
          simp only [Orderly, hpc]
          exact fun hl he => absurd he (hno hl)
      | waitAcquired hpc hlock hch hto =>
          rw [ownerReconciles_move_own]
          refine iff_of_false ?_ (by simp [Orderly, hpc, hlock, hch])
          rcases hto with rfl | rfl <;> nofun
      | waitNotAcquired hpc hno =>
          rw [ownerReconciles_move_same h]
          refine iff_of_true (absurd · (h.not_own (by rw [hpc]; rfl))) ?_
          simpa only [Orderly, hpc] using hno
      | renewChecked hpc hown hch =>
          rw [ownerReconciles_move_same h]
          exact iff_of_true (fun _ => rfl) (by simp [Orderly, hpc, hch])
      | renewRefused hpc hno =>
          rw [ownerReconciles_move_same h]
          simp only [Orderly, hpc, Pc.InLoop]
          exact ⟨fun hn hown => (nomatch hn hown), fun ha hown => absurd (ha hown) (hno hown)⟩
      | renewed hpc hch =>
          rw [ownerReconciles_move_same h]
          exact iff_of_true (fun _ => rfl) (by simp [Orderly, hpc, hch])
      | notRenewed hpc hno =>
          rw [ownerReconciles_move_same h]
          simp [Orderly, hpc, Pc.InLoop, hno]
      | releaseChecked hpc hown hch =>
          rw [ownerReconciles_move_same h]
          exact iff_of_true (fun _ => rfl) (by simp [Orderly, hpc, hch])
      | releaseRefused hpc hno =>
          rw [ownerReconciles_move_same h]
          simp only [Orderly, hpc, Pc.InLoop]
          exact ⟨fun hn hown => (nomatch hn hown), fun ha hown => absurd (ha hown) (hno hown)⟩
      | released hpc hch =>
          exact iff_of_true ownerReconciles_move_none (by simp [Orderly, hpc, hch])
      | notReleased hpc hno =>
          rw [ownerReconciles_move_same h]
          simp [Orderly, hpc, Pc.InLoop, hno]

/-- A step that breaks the order is enabled: it is a command. -/
theorem orderly_of_disabled {F : Fleet ι} {s : State ι} {a : Action ι}
    (h : step F s a = none) : Orderly F s a := by
  cases a with
  | run i ch => cases hpc : s.pc i <;> simp_all [step, Pc.act, perform, Orderly]
  | cancel i => trivial
  | expire => trivial

/-- The owner of the lock is in the reconcile loop in every state of a run exactly when
    every step of the run is orderly. -/
theorem ownerReconciles_iff (F : Fleet ι) (as : List (Action ι)) :
    EveryState (step F) (OwnerReconciles F) State.init as ↔
      EveryStep (step F) (Orderly F) State.init as :=
  everyState_iff_everyStep (fun _ _ _ h hstep => ownerReconciles_step h hstep)
    (fun _ _ => orderly_of_disabled) (fun _ hown => nomatch hown)

/-- Two instances with the default settings. -/
def twoPlanes : Fleet (Fin 2) where
  plane i := newControlPlane ⟨Config.getDefaults, Config.validate_getDefaults⟩ "cp"
    (if i = 0 then 100 else 101)
  id_injective := by decide +kernel

/-- The owner stands by: the lock expires, `waitForLock` acquires it and calls `Start`,
    which finds the lock taken and goes back to `waitForLock`. -/
theorem owner_standsBy :
    ∃ s, runFrom (step twoPlanes) State.init
        [.run 0 {}, .run 1 {}, .expire, .run 1 {}, .run 1 {}, .run 1 {}] = some s ∧
      s.lock = some (twoPlanes.id 1) ∧ s.pc 1 = .waiting :=
  ⟨_, rfl, rfl, rfl⟩

-- ============================================================================
-- Commands on the lock of another instance
-- ============================================================================

/-- An `EXPIRE` or `DEL` of the step is executed on the issuer's lock or on none, and
    `renewLock` returns nil, as it does once its `EXPIRE` is answered, only if the lock
    was the issuer's. -/
def TouchesOwn (F : Fleet ι) (s : State ι) : Action ι → Prop
  | .run i ch =>
      match s.pc i with
      | .renewExpire =>
          (Executed s i .caller ch → s.lock = some (F.id i) ∨ s.lock = none) ∧
          (Answered s i .caller ch → s.lock = some (F.id i))
      | .releaseDel => Executed s i .background ch → s.lock = some (F.id i) ∨ s.lock = none
      | _ => True
  | .cancel _ | .expire => True

/-- The step does not come between the `GET` of an instance and the command it guards:
    the lock does not expire while its owner is about to renew it, and a free lock is
    not acquired while another instance is about to delete it. -/
def Unraced (F : Fleet ι) (s : State ι) : Action ι → Prop
  | .run i ch =>
      s.pc i = .start ∨ s.pc i = .waitAcquire → s.lock = none → Executed s i .caller ch →
        ∀ j, s.pc j ≠ .releaseDel
  | .cancel _ => True
  | .expire => ∀ i, s.pc i = .renewExpire → s.lock ≠ some (F.id i)

instance [Fintype ι] (F : Fleet ι) (s : State ι) : ∀ a, Decidable (Unraced F s a)
  | .run i ch => inferInstanceAs (Decidable (_ ∨ _ → _ → Executed s i .caller ch → ∀ _, _))
  | .cancel _ => isTrue trivial
  | .expire => inferInstanceAs (Decidable (∀ _, _ → _))

/-- What the `GET` has established still holds at the command it guards. -/
structure Checked (F : Fleet ι) (s : State ι) : Prop where
  renew : ∀ i, s.pc i = .renewExpire → s.lock = some (F.id i)
  release : ∀ i, s.pc i = .releaseDel → s.lock = some (F.id i) ∨ s.lock = none

section Checks

variable {F : Fleet ι} {s s' : State ι} {i : ι} {pc : Pc}

theorem Checked.move_same (h : Checked F s)
    (hexp : pc = .renewExpire → s.lock = some (F.id i))
    (hdel : pc = .releaseDel → s.lock = some (F.id i)) : Checked F (s.move i s.lock pc) := by
  refine ⟨fun j hj => ?_, fun j hj => ?_⟩
  · by_cases hij : j = i
    · subst hij
      exact hexp (by simpa [State.move] using hj)
    · exact h.renew j (by simpa [State.move, hij] using hj)
  · by_cases hij : j = i
    · subst hij
      exact .inl (hdel (by simpa [State.move] using hj))
    · exact h.release j (by simpa [State.move, hij] using hj)

/-- The place an instance stands at after a `SETNX` does not matter, as it is not one
    behind a `GET`. -/
theorem Checked.move_own (h : Checked F s) (hlock : s.lock = none)
    (hno : ∀ j, s.pc j ≠ .releaseDel) (hexp : pc ≠ .renewExpire) (hdel : pc ≠ .releaseDel) :
    Checked F (s.move i (some (F.id i)) pc) := by
  refine ⟨fun j hj => ?_, fun j hj => ?_⟩
  · by_cases hij : j = i
    · subst hij
      exact absurd (by simpa [State.move] using hj) hexp
    · have hown := h.renew j (by simpa [State.move, hij] using hj)
      rw [hlock] at hown
      cases hown
  · by_cases hij : j = i
    · subst hij
      exact absurd (by simpa [State.move] using hj) hdel
    · exact absurd (by simpa [State.move, hij] using hj) (hno j)

/-- After the `DEL` of an instance that had the lock, or found none. -/
theorem Checked.move_released (h : Checked F s) (hpc : s.pc i = .releaseDel)
    (hexp : pc ≠ .renewExpire) : Checked F (s.move i none pc) := by
  refine ⟨fun j hj => ?_, fun _ _ => .inr rfl⟩
  by_cases hij : j = i
  · subst hij
    exact absurd (by simpa [State.move] using hj) hexp
  · have hown := h.renew j (by simpa [State.move, hij] using hj)
    rcases h.release i hpc with hi | hi
    · exact absurd (F.id_injective j i (Option.some.inj (hown.symm.trans hi))) hij
    · rw [hown] at hi
      cases hi

end Checks

/-- What the `GET`s have established survives a step that does not come between. -/
theorem checked_step {F : Fleet ι} {s s' : State ι} {a : Action ι} (h : Checked F s)
    (hC : Unraced F s a) (hstep : step F s a = some s') : Checked F s' := by
  cases a with
  | cancel i =>
      cases hstep
      exact ⟨h.renew, h.release⟩
  | expire =>
      obtain ⟨v, -, rfl⟩ := Option.map_eq_some_iff.mp hstep
      exact ⟨fun i hi => absurd (h.renew i hi) (hC i hi), fun _ _ => .inr rfl⟩
  | run i ch =>
      obtain ⟨lock, pc, hmove, rfl⟩ := step_move hstep
      cases hmove with
      | quiet hfrom hloop hexp hdel => exact h.move_same (absurd · hexp) (absurd · hdel)
      | acquired hpc hlock hch =>
          exact h.move_own hlock (hC (.inl hpc) hlock hch.executed) nofun nofun
      | acquiredUnseen hpc hlock hch hno =>
          exact h.move_own hlock (hC (.inl hpc) hlock hch) nofun nofun
      | notAcquired hpc hno hto =>
          rcases hto with rfl | ⟨err, rfl⟩ <;> exact h.move_same nofun nofun
      | waitAcquired hpc hlock hch hto =>
          have hdel := hC (.inr hpc) hlock hch
          rcases hto with rfl | rfl <;> exact h.move_own hlock hdel nofun nofun
      | waitNotAcquired hpc hno => exact h.move_same nofun nofun
      | renewChecked hpc hown hch => exact h.move_same (fun _ => hown) nofun
      | renewRefused hpc hno => exact h.move_same nofun nofun
      | renewed hpc hch => exact h.move_same nofun nofun
      | notRenewed hpc hno => exact h.move_same nofun nofun
      | releaseChecked hpc hown hch => exact h.move_same nofun (fun _ => hown)
      | releaseRefused hpc hno => exact h.move_same nofun nofun
      | released hpc hch => exact h.move_released hpc nofun
      | notReleased hpc hno => exact h.move_same nofun nofun

omit [DecidableEq ι] in
theorem Checked.touchesOwn {F : Fleet ι} {s : State ι} (h : Checked F s) (a : Action ι) :
    TouchesOwn F s a := by
  cases a with
  | cancel i => trivial
  | expire => trivial
  | run i ch =>
      simp only [TouchesOwn]
      split
      · next hpc => exact ⟨fun _ => .inl (h.renew i hpc), fun _ => h.renew i hpc⟩
      · next hpc => exact fun _ => h.release i hpc
      · trivial

/-- In a run whose steps do not come between a `GET` and the command it guards, every
    `EXPIRE` and every `DEL` acts on the issuer's lock or on none, and `renewLock`
    returns nil only for the owner of the lock. -/
theorem touchesOwn_of_unraced (F : Fleet ι) (as : List (Action ι))
    (h : EveryStep (step F) (Unraced F) State.init as) :
    EveryStep (step F) (TouchesOwn F) State.init as :=
  EveryStep.mono (fun _ _ _ hs hC hstep => checked_step hs hC hstep)
    (fun _ a hs _ => hs.touchesOwn a) ⟨nofun, nofun⟩ h

/-- An instance acquires the lock, renews it and releases it, and the other one takes
    over. -/
def handover : List (Action (Fin 2)) :=
  [.run 0 {}, .run 0 {}, .run 0 {}, .run 0 {}, .run 0 {}, .cancel 0, .run 0 { loopCase := .done },
    .run 0 {}, .run 0 {}, .run 1 {}]

/-- Nothing comes between in a handover, and its last step acquires the lock. -/
theorem touchesOwn_handover :
    EveryStep (step twoPlanes) (TouchesOwn twoPlanes) State.init handover ∧
      ∃ s, runFrom (step twoPlanes) State.init handover = some s ∧
        s.lock = some (twoPlanes.id 1) :=
  ⟨touchesOwn_of_unraced twoPlanes handover (by decide +kernel), _, rfl, rfl⟩

/-- The lock expires between the two commands of `renewLock` and another instance takes
    it: the `EXPIRE` is executed on that instance's lock, and `renewLock` returns nil. -/
theorem renewed_other :
    ∃ s s', runFrom (step twoPlanes) State.init
        [.run 0 {}, .run 0 {}, .run 0 {}, .run 0 {}, .expire, .run 1 {}] = some s ∧
      s.pc 0 = .renewExpire ∧ Answered s 0 .caller {} ∧ s.lock = some (twoPlanes.id 1) ∧
      step twoPlanes s (.run 0 {}) = some s' ∧ s'.pc 0 = .loop :=
  ⟨_, _, rfl, rfl, ⟨nofun, rfl⟩, rfl, rfl, rfl⟩

end LogPipeline.Registry
