/-
  LogPipeline.Registry.ControlPlane

  `internal/registry/control_plane.go`: control plane instances and their lock.

  `start` and `waitForLock` are the source's functions, as programs; `for` loops and
  the calls of each other take the number of rounds that are left.  An instance is
  then run as a machine: a place in that program (`Pc`), with the call that is made
  there and the place each reply leads to (`Pc.act`).  `code_act` says that the
  machine makes the calls of the program, and `runFrom_start` that in every run of
  a fleet each instance is where its program is.

  The lock key holds the id of the instance that set it, until the key expires or
  is deleted.  Expiry can happen between any two commands.
-/

import LogPipeline.Cluster.Effects
import LogPipeline.Config.Validator
import LogPipeline.Conc.Lts
import Mathlib.Logic.Function.Basic

namespace LogPipeline.Registry

open Conc Go
open Cluster (RedisError)

-- ============================================================================
-- Calls
-- ============================================================================

/-- The context of a command: the caller's, or `context.Background()`. -/
inductive Ctx where
  | caller
  | background
deriving DecidableEq

/-- The cases of the `select` in the reconcile loop. -/
inductive LoopCase where
  | done
  | renew
  | reconcile
deriving DecidableEq

/-- The cases of the `select` in `waitForLock`. -/
inductive WaitCase where
  | done
  | tick
deriving DecidableEq

inductive Op where
  | setNX (ctx : Ctx) (key value : String) (ttl : Duration)
  | get (ctx : Ctx) (key : String)
  | expire (ctx : Ctx) (key : String) (ttl : Duration)
  | del (ctx : Ctx) (key : String)
  /-- The whole of `reconcile`: it lists the workers and logs. -/
  | reconcile
  | selectLoop
  | selectWait

@[reducible] def Op.Res : Op → Type
  | .setNX .. => Except RedisError Bool
  | .get .. => Except RedisError String
  | .expire .. => Except RedisError Bool
  | .del .. => Except RedisError Nat
  | .reconcile => Unit
  | .selectLoop => LoopCase
  | .selectWait => WaitCase

def sig : Sig := ⟨Op, Op.Res⟩

/-- A program of the control plane. -/
abbrev Program (α : Type) := Prog sig α

def call (o : Op) : Program o.Res := Prog.perform (S := sig) o

-- ============================================================================
-- The source
-- ============================================================================

def controlPlaneLockKey : String := "controlplane:lock"

/-- `ControlPlane`, with the setting its lock functions read.  An `EXPIRE` with a TTL
    that is not positive would delete the key. -/
structure ControlPlane where
  id : String
  lockTTL : Duration
  lockTTL_pos : 0 < lockTTL

/-- `NewControlPlane`, in a process whose settings were accepted. -/
def newControlPlane (a : Config.Accepted) (hostname : String) (pid : Int64) : ControlPlane where
  id := "controlplane-" ++ hostname ++ "-" ++ formatInt pid
  lockTTL := a.cfg.registry.lockTTL
  lockTTL_pos := Int64.lt_trans a.registry.controlPlanePoll a.registry.lockTTL

/-- The `%q` verb, for a text without characters that are escaped. -/
def quote (s : String) : String := "\"" ++ s ++ "\""

/-- How a call of `Start` ends: it returns nil or an error, or is still running when
    its rounds are used up. -/
inductive Exit where
  | returned (err : Option String)
  | running

namespace ControlPlane

variable (cp : ControlPlane)

/-- `acquireLock`. -/
def acquireLock (ctx : Ctx) : Program (Except String Bool) := do
  match ← call (.setNX ctx controlPlaneLockKey cp.id cp.lockTTL) with
  | .error err => return .error ("lock SetNX failed: " ++ err.text)
  | .ok ok => return .ok ok

/-- `renewLock`; `none` is the nil error. -/
def renewLock (ctx : Ctx) : Program (Option String) := do
  match ← call (.get ctx controlPlaneLockKey) with
  | .error err => return some ("failed to read lock: " ++ err.text)
  | .ok current =>
      if current ≠ cp.id then
        return some ("lock owned by " ++ quote current ++ ", not " ++ quote cp.id)
      else
        match ← call (.expire ctx controlPlaneLockKey cp.lockTTL) with
        | .error err => return some ("failed to renew lock TTL: " ++ err.text)
        | .ok _ => return none

/-- `releaseLock`. -/
def releaseLock (ctx : Ctx) : Program Unit := do
  match ← call (.get ctx controlPlaneLockKey) with
  | .error _ => return ()
  | .ok current =>
      if current ≠ cp.id then return ()
      else
        let _ ← call (.del ctx controlPlaneLockKey)
        return ()

/-- `renewLock` after the reply to its `GET`. -/
theorem renewLock_bind {β : Type} (ctx : Ctx) (f : Option String → Program β) :
    (cp.renewLock ctx).bind f = Prog.call (S := sig) (.get ctx controlPlaneLockKey) fun
      | .error err => f (some ("failed to read lock: " ++ err.text))
      | .ok current =>
          if current ≠ cp.id then
            f (some ("lock owned by " ++ quote current ++ ", not " ++ quote cp.id))
          else Prog.call (S := sig) (.expire ctx controlPlaneLockKey cp.lockTTL) fun
            | .error err => f (some ("failed to renew lock TTL: " ++ err.text))
            | .ok _ => f none := by
  refine congrArg (Prog.call (S := sig) _) (funext fun r => ?_)
  rcases r with err | current
  · rfl
  · refine (apply_ite (Prog.bind · f) (current ≠ cp.id) _ _).trans ?_
    refine congrArg (ite (current ≠ cp.id) _) ?_
    refine congrArg (Prog.call (S := sig) _) (funext fun r => ?_)
    cases r <;> rfl

/-- `releaseLock` after the reply to its `GET`. -/
theorem releaseLock_bind {β : Type} (ctx : Ctx) (f : Unit → Program β) :
    (cp.releaseLock ctx).bind f = Prog.call (S := sig) (.get ctx controlPlaneLockKey) fun
      | .error _ => f ()
      | .ok current =>
          if current ≠ cp.id then f ()
          else Prog.call (S := sig) (.del ctx controlPlaneLockKey) fun _ => f () := by
  refine congrArg (Prog.call (S := sig) _) (funext fun r => ?_)
  rcases r with err | current
  · rfl
  · exact apply_ite (Prog.bind · f) (current ≠ cp.id) _ _

/-- The reconcile loop of `Start`. -/
def loop : Nat → Program Exit
  | 0 => return .running
  | n + 1 => do
      match ← call .selectLoop with
      | .done =>
          cp.releaseLock .background
          return .returned none
      | .renew =>
          match ← cp.renewLock .caller with
          | some err => return .returned (some ("lost control plane lock: " ++ err))
          | none => loop n
      | .reconcile =>
          call .reconcile
          loop n

mutual

/-- `Start`. -/
def start : Nat → Program Exit
  | 0 => return .running
  | n + 1 => do
      match ← cp.acquireLock .caller with
      | .error err => return .returned (some ("failed to acquire control plane lock: " ++ err))
      | .ok false => waitForLock n
      | .ok true =>
          -- run immediately on start
          call .reconcile
          cp.loop n

/-- `waitForLock`. -/
def waitForLock : Nat → Program Exit
  | 0 => return .running
  | n + 1 => do
      match ← call .selectWait with
      | .done => return .returned none
      | .tick =>
          match ← cp.acquireLock .caller with
          | .error _ => waitForLock n
          | .ok true => start n
          | .ok false => waitForLock n

end

end ControlPlane

-- ============================================================================
-- The places of the program
-- ============================================================================

/-- Where an instance is: the call it makes next, or that `Start` has returned. -/
inductive Pc where
  /-- The `SETNX` of `Start`. -/
  | start
  | reconcile
  /-- The `select` of the reconcile loop. -/
  | loop
  | renewGet
  | renewExpire
  | releaseGet
  | releaseDel
  /-- The `select` of `waitForLock`. -/
  | waiting
  /-- The `SETNX` of `waitForLock`. -/
  | waitAcquire
  | stopped (err : Option String)
deriving DecidableEq

namespace Pc

variable (cp : ControlPlane)

/-- `Start` returns since the lock was not renewed. -/
def lost (err : String) : Pc := .stopped (some ("lost control plane lock: " ++ err))

/-- The call made at a place, and the place each reply leads to. -/
def act : Pc → Option ((o : Op) × (o.Res → Pc))
  | .start => some ⟨.setNX .caller controlPlaneLockKey cp.id cp.lockTTL, fun
      | .error err => .stopped
          (some ("failed to acquire control plane lock: " ++ ("lock SetNX failed: " ++ err.text)))
      | .ok true => .reconcile
      | .ok false => .waiting⟩
  | .reconcile => some ⟨.reconcile, fun _ => .loop⟩
  | .loop => some ⟨.selectLoop, fun
      | .done => .releaseGet
      | .renew => .renewGet
      | .reconcile => .reconcile⟩
  | .renewGet => some ⟨.get .caller controlPlaneLockKey, fun
      | .error err => lost ("failed to read lock: " ++ err.text)
      | .ok current =>
          if current ≠ cp.id then
            lost ("lock owned by " ++ quote current ++ ", not " ++ quote cp.id)
          else .renewExpire⟩
  | .renewExpire => some ⟨.expire .caller controlPlaneLockKey cp.lockTTL, fun
      | .error err => lost ("failed to renew lock TTL: " ++ err.text)
      | .ok _ => .loop⟩
  | .releaseGet => some ⟨.get .background controlPlaneLockKey, fun
      | .error _ => .stopped none
      | .ok current => if current ≠ cp.id then .stopped none else .releaseDel⟩
  | .releaseDel => some ⟨.del .background controlPlaneLockKey, fun _ => .stopped none⟩
  | .waiting => some ⟨.selectWait, fun
      | .done => .stopped none
      | .tick => .waitAcquire⟩
  | .waitAcquire => some ⟨.setNX .caller controlPlaneLockKey cp.id cp.lockTTL, fun
      | .error _ => .waiting
      | .ok true => .start
      | .ok false => .waiting⟩
  | .stopped _ => none

/-- What is left of `Start` at a place, with `n` rounds to go after the present one. -/
def code (n : Nat) : Pc → Program Exit
  | .start => cp.start (n + 1)
  | .reconcile => do call .reconcile; cp.loop n
  | .loop => cp.loop (n + 1)
  | .renewGet => do
      match ← cp.renewLock .caller with
      | some err => return .returned (some ("lost control plane lock: " ++ err))
      | none => cp.loop n
  | .renewExpire => do
      match ← call (.expire .caller controlPlaneLockKey cp.lockTTL) with
      | .error err =>
          let err := "failed to renew lock TTL: " ++ err.text
          return .returned (some ("lost control plane lock: " ++ err))
      | .ok _ => cp.loop n
  | .releaseGet => do
      cp.releaseLock .background
      return .returned none
  | .releaseDel => do
      let _ ← call (.del .background controlPlaneLockKey)
      return .returned none
  | .waiting => cp.waitForLock (n + 1)
  | .waitAcquire => do
      match ← cp.acquireLock .caller with
      | .error _ => cp.waitForLock n
      | .ok true => cp.start n
      | .ok false => cp.waitForLock n
  | .stopped err => return .returned err

/-- The machine makes the next call of the program, and each reply leads to a place
    where the rest of the program is left; a round is used up at most. -/
theorem code_act {pc : Pc} {o : Op} {k : o.Res → Pc} (h : pc.act cp = some ⟨o, k⟩) (n : Nat) :
    ∃ f : o.Res → Program Exit, pc.code cp (n + 1) = Prog.call (S := sig) o f ∧
      ∀ r, ∃ m, n ≤ m ∧ f r = (k r).code cp m := by
  have same : n ≤ n + 1 := Nat.le_succ n
  cases pc with
  | start =>
      cases h
      refine ⟨_, by rw [code, ControlPlane.start]; rfl, ?_⟩
      rintro (err | _ | _)
      · exact ⟨n, le_rfl, rfl⟩
      · exact ⟨n, le_rfl, rfl⟩
      · exact ⟨n + 1, same, rfl⟩
  | reconcile =>
      cases h
      exact ⟨_, rfl, fun _ => ⟨n, le_rfl, rfl⟩⟩
  | loop =>
      cases h
      refine ⟨_, by rw [code, ControlPlane.loop]; rfl, ?_⟩
      rintro (_ | _ | _) <;> exact ⟨n + 1, same, rfl⟩
  | renewGet =>
      cases h
      refine ⟨_, cp.renewLock_bind .caller _, ?_⟩
      rintro (err | current)
      · exact ⟨n, le_rfl, rfl⟩
      · refine ⟨n + 1, same, ?_⟩
        by_cases hid : current = cp.id
        · simp only [hid, ne_eq, not_true_eq_false, if_false]
          exact congrArg (Prog.call (S := sig) _) (funext fun r => by cases r <;> rfl)
        · simp only [hid, ne_eq, not_false_eq_true, if_true]
          rfl
  | renewExpire =>
      cases h
      refine ⟨_, rfl, ?_⟩
      rintro (err | _) <;> exact ⟨n, le_rfl, rfl⟩
  | releaseGet =>
      cases h
      refine ⟨_, cp.releaseLock_bind .background _, ?_⟩
      rintro (err | current)
      · exact ⟨n, le_rfl, rfl⟩
      · refine ⟨n, le_rfl, ?_⟩
        by_cases hid : current = cp.id
        · simp only [hid, ne_eq, not_true_eq_false, if_false]
          rfl
        · simp only [hid, ne_eq, not_false_eq_true, if_true]
          rfl
  | releaseDel =>
      cases h
      exact ⟨_, rfl, fun _ => ⟨n, le_rfl, rfl⟩⟩
  | waiting =>
      cases h
      refine ⟨_, by rw [code, ControlPlane.waitForLock]; rfl, ?_⟩
      rintro (_ | _)
      · exact ⟨n, le_rfl, rfl⟩
      · exact ⟨n + 1, same, rfl⟩
  | waitAcquire =>
      cases h
      refine ⟨_, rfl, ?_⟩
      rintro (err | _ | _) <;> exact ⟨n, le_rfl, rfl⟩
  | stopped err => cases h

/-- From one place to another along calls and their replies. -/
def Path : Pc → List ((o : Op) × o.Res) → Pc → Prop
  | pc, [], pc' => pc = pc'
  | pc, ⟨o, r⟩ :: es, pc' => ∃ k, pc.act cp = some ⟨o, k⟩ ∧ Path (k r) es pc'

/-- The machine goes where the program goes, given a round for each call. -/
theorem Path.code {pc pc' : Pc} {es : List ((o : Op) × o.Res)} (h : pc.Path cp es pc') (n : Nat) :
    ∃ m, n ≤ m ∧ (pc.code cp (n + es.length)).Path es (pc'.code cp m) := by
  induction es generalizing pc n with
  | nil =>
      cases h
      exact ⟨n, le_rfl, rfl⟩
  | cons e es ih =>
      obtain ⟨o, r⟩ := e
      obtain ⟨k, hact, hrest⟩ := h
      obtain ⟨f, hcode, hf⟩ := code_act cp hact (n + es.length)
      obtain ⟨m, hm, hfr⟩ := hf r
      -- the rounds that are left are enough for the calls that are left
      obtain ⟨m', hm', hpath⟩ := ih hrest (m - es.length)
      rw [Nat.sub_add_cancel (by omega), ← hfr] at hpath
      exact ⟨m', by omega, f, hcode, hpath⟩

end Pc

-- ============================================================================
-- Instances and their lock
-- ============================================================================

variable {ι : Type} [DecidableEq ι]

/-- Control plane instances that share one Redis, with distinct ids. -/
structure Fleet (ι : Type) where
  plane : ι → ControlPlane
  id_injective : ∀ i j, (plane i).id = (plane j).id → i = j

/-- The id of an instance. -/
def Fleet.id (F : Fleet ι) (i : ι) : String := (F.plane i).id

structure State (ι : Type) where
  /-- The value of the lock key, if it is set. -/
  lock : Option String
  pc : ι → Pc
  /-- The context of the instance is done. -/
  done : ι → Bool

/-- Every instance is about to call `Start`. -/
def State.init : State ι := ⟨none, fun _ => .start, fun _ => false⟩

/-- What becomes of the round trip of a command. -/
inductive Trip where
  | ok
  /-- The command does not reach Redis. -/
  | unsent (msg : String)
  /-- The command is executed and its reply is lost. -/
  | lost (msg : String)
deriving DecidableEq

/-- What the environment decides at a call. -/
structure Choice where
  trip : Trip := .ok
  loopCase : LoopCase := .renew
  waitCase : WaitCase := .tick

/-- The client's view of a command that Redis answers with `reply.1`, the lock key
    then being `reply.2`. -/
def command {ρ : Type} (s : State ι) (i : ι) (ctx : Ctx) (ch : Choice)
    (reply : Except RedisError ρ × Option String) : Except RedisError ρ × Option String :=
  if ctx = .caller ∧ s.done i = true then (.error .context, s.lock)
  else
    match ch.trip with
    | .ok => reply
    | .unsent msg => (.error (.server msg), s.lock)
    | .lost msg => (.error (.server msg), reply.2)

/-- The reply to a call of instance `i` and the lock key after it; every command is
    on the lock key.  A `select` takes a case that is ready. -/
def perform (s : State ι) (i : ι) (ch : Choice) : (o : Op) → Option (o.Res × Option String)
  | .setNX ctx _ value _ => some (command s i ctx ch
      (match s.lock with
       | none => (.ok true, some value)
       | some v => (.ok false, some v)))
  | .get ctx _ => some (command s i ctx ch
      (match s.lock with
       | none => (.error .nil, none)
       | some v => (.ok v, some v)))
  | .expire ctx _ _ => some (command s i ctx ch (.ok s.lock.isSome, s.lock))
  | .del ctx _ => some (command s i ctx ch (.ok s.lock.toList.length, none))
  | .reconcile => some ((), s.lock)
  | .selectLoop =>
      if ch.loopCase = .done ∧ s.done i = false then none else some (ch.loopCase, s.lock)
  | .selectWait =>
      if ch.waitCase = .done ∧ s.done i = false then none else some (ch.waitCase, s.lock)

inductive Action (ι : Type) where
  /-- The next call of an instance. -/
  | run (i : ι) (ch : Choice)
  /-- The context of an instance is cancelled. -/
  | cancel (i : ι)
  /-- The TTL of the lock key runs out. -/
  | expire

/-- One step of the fleet. -/
def step (F : Fleet ι) (s : State ι) : Action ι → Option (State ι)
  | .run i ch =>
      match (s.pc i).act (F.plane i) with
      | none => none
      | some ⟨o, k⟩ =>
          (perform s i ch o).map fun r =>
            { s with lock := r.2, pc := Function.update s.pc i (k r.1) }
  | .cancel i => some { s with done := Function.update s.done i true }
  | .expire => s.lock.map fun _ => { s with lock := none }

/-- What a step of an instance does. -/
theorem step_run {F : Fleet ι} {s s' : State ι} {i : ι} {ch : Choice}
    (h : step F s (.run i ch) = some s') :
    ∃ o k r, (s.pc i).act (F.plane i) = some ⟨o, k⟩ ∧ perform s i ch o = some r ∧
      s' = { s with lock := r.2, pc := Function.update s.pc i (k r.1) } := by
  simp only [step] at h
  split at h
  · cases h
  · next o k hact =>
      obtain ⟨r, hr, rfl⟩ := Option.map_eq_some_iff.mp h
      exact ⟨o, k, r, hact, hr, rfl⟩

/-- A step leaves an instance where it is, or makes its next call. -/
theorem step_pc {F : Fleet ι} {s s' : State ι} {a : Action ι} (h : step F s a = some s') (i : ι) :
    s'.pc i = s.pc i ∨
      ∃ o k r, (s.pc i).act (F.plane i) = some ⟨o, k⟩ ∧ s'.pc i = k r := by
  cases a with
  | run j ch =>
      obtain ⟨o, k, r, hact, -, rfl⟩ := step_run h
      by_cases hij : i = j
      · subst hij
        exact .inr ⟨o, k, r.1, hact, Function.update_self ..⟩
      · exact .inl (Function.update_of_ne hij ..)
  | cancel j =>
      cases h
      exact .inl rfl
  | expire =>
      obtain ⟨v, -, rfl⟩ := Option.map_eq_some_iff.mp h
      exact .inl rfl

/-- In a run of the fleet, an instance goes from place to place along its calls. -/
theorem runFrom_path {F : Fleet ι} {s s' : State ι} {as : List (Action ι)}
    (h : runFrom (step F) s as = some s') (i : ι) :
    ∃ es, (s.pc i).Path (F.plane i) es (s'.pc i) := by
  induction as generalizing s with
  | nil =>
      cases h
      exact ⟨[], rfl⟩
  | cons a as ih =>
      simp only [runFrom] at h
      split at h
      · next s₁ hs₁ =>
          obtain ⟨es, hpath⟩ := ih h
          rcases step_pc hs₁ i with hpc | ⟨o, k, r, hact, hpc⟩
          · exact ⟨es, hpc ▸ hpath⟩
          · exact ⟨⟨o, r⟩ :: es, k, hact, hpc ▸ hpath⟩
      · cases h

/-- Where an instance is in a reachable state, its program is as well: what is left of
    `Start` after the calls it made. -/
theorem runFrom_start {F : Fleet ι} {s : State ι} {as : List (Action ι)}
    (h : runFrom (step F) State.init as = some s) (i : ι) (n : Nat) :
    ∃ es m, n ≤ m ∧
      ((F.plane i).start (n + es.length + 1)).Path es ((s.pc i).code (F.plane i) m) := by
  obtain ⟨es, hpath⟩ := runFrom_path h i
  obtain ⟨m, hm, hcode⟩ := Pc.Path.code (F.plane i) hpath n
  exact ⟨es, m, hm, hcode⟩

end LogPipeline.Registry
