/-
  LogPipeline.Cluster.Runs

  What one step of a run does to the store, and what the assumptions of a policy
  say about the log of every run it permits.

  - `StreamStep`: what a command can do to one stream.
  - `Moves`: a step executes or loses one command, lets the clock advance, or
    leaves the server alone.
  - `reachable_invariant`, `reachable_every`: the induction over runs, for
    properties of the store and of each logged event.
-/

import LogPipeline.Cluster.Programs

namespace LogPipeline.Cluster

open Conc Go Redis Queue Bootstrap

variable {D : Deployment} {P : Policy (world D)}

-- ============================================================================
-- What a command does to one stream
-- ============================================================================

/-- The effect of a command on one stream. -/
inductive StreamStep (ch : Choice) (now : Nat) (stream : String) (x : Stream Values) :
    Cmd → Stream Values → Prop
  | same {c : Cmd} : StreamStep ch now stream x c x
  | add {maxLen : Int64} {v : Values} (h : x.lastID < ch.id) :
      StreamStep ch now stream x (.xAdd stream maxLen v) (x.xadd ch.id h v ch.trim)
  | ack {group : String} {id : StreamID} :
      StreamStep ch now stream x (.xAck stream group id) (x.xack group id).1
  | del {id : StreamID} : StreamStep ch now stream x (.xDel stream id) (x.xdel id).1
  | read {c : Cmd} {group consumer : String} {r : Option (Entry Values)} {x' : Stream Values}
      (h : x.xreadgroup group consumer now = some (r, x')) : StreamStep ch now stream x c x'
  | claim {c : Cmd} {group consumer : String} {minIdle count scan : Nat}
      {start cursor : StreamID} {es : List (Entry Values)} {x' : Stream Values}
      (h : x.xautoclaim group consumer minIdle now start count scan = some (es, cursor, x')) :
      StreamStep ch now stream x c x'
  | create {c : Cmd} {group : String} {x' : Stream Values} (h : x.xgroupCreate group = some x') :
      StreamStep ch now stream x c x'

section

variable {ch : Choice} {s s' : Store} {c : Cmd} {reply : Except RedisError c.Reply}

theorem setStream_self (s : Store) (name : String) (x : Stream Values) :
    (s.setStream name x).streams name = x := by
  simp [Store.setStream]

theorem setStream_ne (s : Store) {name other : String} (x : Stream Values) (h : other ≠ name) :
    (s.setStream name x).streams other = s.streams other := by
  simp [Store.setStream, Function.update_of_ne h]

/-- A command that replaces one stream leaves the others alone. -/
theorem streamStep_setStream {name stream : String} {x : Stream Values}
    (h : stream = name → StreamStep ch s.now stream (s.streams stream) c x) :
    StreamStep ch s.now stream (s.streams stream) c ((s.setStream name x).streams stream) := by
  by_cases hs : stream = name
  · subst hs
    rw [setStream_self]
    exact h rfl
  · rw [setStream_ne s x hs]
    exact .same

theorem runCmd_stream (h : runCmd ch s c = some (reply, s')) (stream : String) :
    StreamStep ch s.now stream (s.streams stream) c (s'.streams stream) := by
  cases c with
  | setNX key value ttl =>
      rcases runCmd_setNX h with ⟨-, -, rfl⟩ | ⟨-, -, rfl⟩ | ⟨-, -, rfl⟩
      · exact .same
      · exact .same
      · exact .same
  | xAdd name maxLen v =>
      simp only [runCmd] at h
      split at h
      · split at h
        · cases h
          refine streamStep_setStream fun hs => ?_
          subst hs
          exact .add _
        · cases h
      · cases h
  | xAck name group id =>
      cases h
      refine streamStep_setStream fun hs => ?_
      subst hs
      exact .ack
  | xDel name id =>
      cases h
      refine streamStep_setStream fun hs => ?_
      subst hs
      exact .del
  | xRange name lo hi =>
      cases h
      exact .same
  | xReadGroup name group consumer block =>
      simp only [runCmd] at h
      split at h
      · cases h
        exact .same
      · next x hx =>
          cases h
          exact streamStep_setStream fun hs => .read (hs ▸ hx)
      · next y x hx =>
          cases h
          exact streamStep_setStream fun hs => .read (hs ▸ hx)
  | xAutoClaim name group consumer minIdle start count =>
      simp only [runCmd] at h
      split at h
      · cases h
        exact .same
      · next es cursor x hx =>
          cases h
          exact streamStep_setStream fun hs => .claim (hs ▸ hx)
  | xGroupCreateMkStream name group =>
      simp only [runCmd] at h
      split at h
      · cases h
        exact .same
      · next x hx =>
          cases h
          exact streamStep_setStream fun hs => .create (hs ▸ hx)
  | xLen name =>
      cases h
      exact .same
  | xPending name group =>
      simp only [runCmd] at h
      split at h <;> cases h <;> exact .same

/-- Without trimming, only XACK and XDEL end the wait of an entry. -/
theorem StreamStep.outstanding {now : Nat} {stream group : String} {x x' : Stream Values}
    {e : Entry Values} (h : StreamStep ch now stream x c x') (htrim : ch.trim = 0)
    (ho : x.Outstanding group e) :
    x'.Outstanding group e ∨ c = .xAck stream group e.id ∨ c = .xDel stream e.id := by
  cases h with
  | same => exact Or.inl ho
  | add h =>
      left
      rw [htrim]
      exact ho.xadd ..
  | @ack g id =>
      by_cases hne : g ≠ group ∨ e.id ≠ id
      · exact Or.inl (ho.xack hne)
      · obtain ⟨hg, hid⟩ := not_or.mp hne
        rw [not_not] at hg hid
        exact Or.inr (Or.inl (by rw [hg, hid]))
  | @del id =>
      by_cases hid : e.id = id
      · exact Or.inr (Or.inr (by rw [hid]))
      · exact Or.inl (ho.xdel hid)
  | read h => exact Or.inl (ho.xreadgroup h)
  | claim h => exact Or.inl (ho.xautoclaim h)
  | create h => exact Or.inl (ho.xgroupCreate h)

/-- Without trimming, only XDEL removes an entry. -/
theorem StreamStep.entry {now : Nat} {stream : String} {x x' : Stream Values} {e : Entry Values}
    (h : StreamStep ch now stream x c x')
    (htrim : ∀ maxLen v, c = .xAdd stream maxLen v → ch.trim = 0) (he : e ∈ x.entries) :
    e ∈ x'.entries ∨ c = .xDel stream e.id := by
  cases h with
  | same => exact Or.inl he
  | add h =>
      left
      rw [htrim _ _ rfl]
      exact Stream.mem_xadd_zero.mpr (Or.inl he)
  | ack =>
      left
      rw [Stream.xack_entries]
      exact he
  | @del id =>
      by_cases hid : e.id = id
      · exact Or.inr (by rw [hid])
      · exact Or.inl (Stream.mem_xdel_entries.mpr ⟨he, hid⟩)
  | read h =>
      left
      rcases Stream.xreadgroup_cases h with ⟨-, rfl⟩ | ⟨g, y, hlt, hle, -, -, -, rfl⟩
      · exact he
      · exact he
  | claim h =>
      left
      obtain ⟨-, g, hle, -, rfl⟩ := Stream.xautoclaim_eq h
      exact he
  | create h =>
      left
      rw [(Stream.xgroupCreate_eq h).2.1]
      exact he

end

-- ============================================================================
-- One step
-- ============================================================================

/-- The server and its clock are as before. -/
structure Quiet (s s' : Store) : Prop where
  streams : s'.streams = s.streams
  keys : s'.keys = s.keys
  now : s'.now = s.now

theorem Quiet.refl {s : Store} : Quiet s s := ⟨rfl, rfl, rfl⟩

/-- The event is a command. -/
def Ev.IsCmd (ev : Ev) : Prop := ∃ ctx c reply now, ev = .cmd ctx c reply now

/-- What a permitted step does to the store. -/
inductive Moves (P : Policy (world D)) (s : Store) : Store → Prop
  | redis {t : Nat} {ch : Choice} {ctx : Ctx} {c : Cmd} {reply : Except RedisError c.Reply}
      {s₁ : Store} (hp : P.call t ch (Op.redis ctx c) s)
      (hans : answer ch ctx c s = some (reply, s₁)) :
      Moves P s (s₁.record (some t) (.cmd ctx c reply s.now))
  | tick {ms : Nat} (hp : P.env (Move.tick ms) s) : Moves P s { s with now := s.now + ms }
  | silent {s' : Store} (hq : Quiet s s') (hlog : s'.log = s.log) : Moves P s s'
  | logged {s' : Store} {who : Option Nat} {ev : Ev} (hq : Quiet s s')
      (hlog : s'.log = ⟨s.log.length, who, ev⟩ :: s.log) (hcmd : ¬ ev.IsCmd)
      (hmint : ∀ u, ev = .minted u → ∃ t ch, P.call t ch Op.uuid s ∧ u = Choice.uuid ch) :
      Moves P s s'

/-- A call other than a Redis command leaves the server alone. -/
theorem exec_quiet {t : Nat} {ch : Choice} {o : Op} {s s' : Store} {r : o.Res}
    (ho : ∀ ctx c, o ≠ .redis ctx c) (h : exec D t ch o s = some (r, s')) :
    Quiet s s' ∧ ∀ e ∈ s'.log, e ∈ s.log ∨ ¬ e.ev.IsCmd := by
  have hrec : ∀ {s₁ : Store} {ev : Ev}, Quiet s s₁ → s₁.log = s.log → ¬ ev.IsCmd →
      Quiet s (s₁.record (some t) ev) ∧
        ∀ e ∈ (s₁.record (some t) ev).log, e ∈ s.log ∨ ¬ e.ev.IsCmd := by
    intro s₁ ev hq hlog hev
    refine ⟨⟨hq.streams, hq.keys, hq.now⟩, fun e he => ?_⟩
    rcases List.mem_cons.mp he with rfl | he
    · exact Or.inr hev
    · exact Or.inl (hlog ▸ he)
  cases o with
  | redis ctx c => exact absurd rfl (ho ctx c)
  | uuid | invoke e | await e | note n | jobEnd run =>
      cases h
      exact hrec ⟨rfl, rfl, rfl⟩ rfl (by simp [Ev.IsCmd])
  | semAcquire run =>
      simp only [exec] at h
      split at h
      · cases h
        exact ⟨.refl, fun e he => Or.inl he⟩
      · split at h
        · cases h
          exact ⟨⟨rfl, rfl, rfl⟩, fun e he => Or.inl he⟩
        · cases h
  | now | ctxDone run | timerOrDone run | goProcess run e id | jobBegin run | jobDone run =>
      cases h
      exact ⟨⟨rfl, rfl, rfl⟩, fun e he => Or.inl he⟩

theorem exec_moves {t : Nat} {ch : Choice} {o : Op} {s s' : Store} {r : o.Res}
    (hp : P.call t ch o s) (h : exec D t ch o s = some (r, s')) : Moves P s s' := by
  cases o with
  | redis ctx c =>
      obtain ⟨s₁, hans, rfl⟩ := exec_redis h
      exact .redis hp hans
  | uuid =>
      cases h
      refine .logged ⟨rfl, rfl, rfl⟩ rfl ?_ ?_
      · rintro ⟨_, _, _, _, hev⟩
        cases hev
      · intro u hu
        cases hu
        exact ⟨t, ch, hp, rfl⟩
  | invoke e =>
      cases h
      exact .logged ⟨rfl, rfl, rfl⟩ rfl (by simp [Ev.IsCmd]) (by simp)
  | await e =>
      cases h
      exact .logged ⟨rfl, rfl, rfl⟩ rfl (by simp [Ev.IsCmd]) (by simp)
  | note n =>
      cases h
      exact .logged ⟨rfl, rfl, rfl⟩ rfl (by simp [Ev.IsCmd]) (by simp)
  | jobEnd run =>
      cases h
      exact .logged ⟨rfl, rfl, rfl⟩ rfl (by simp [Ev.IsCmd]) (by simp)
  | semAcquire run =>
      simp only [exec] at h
      split at h
      · cases h
        exact .silent .refl rfl
      · split at h
        · cases h
          exact .silent ⟨rfl, rfl, rfl⟩ rfl
        · cases h
  | now =>
      cases h
      exact .silent .refl rfl
  | ctxDone run =>
      cases h
      exact .silent .refl rfl
  | timerOrDone run =>
      cases h
      exact .silent .refl rfl
  | goProcess run e id =>
      cases h
      exact .silent ⟨rfl, rfl, rfl⟩ rfl
  | jobBegin run =>
      cases h
      exact .silent ⟨rfl, rfl, rfl⟩ rfl
  | jobDone run =>
      cases h
      exact .silent ⟨rfl, rfl, rfl⟩ rfl

theorem move_moves {m : Move} {s s' : Store} (hp : P.env m s) (h : move m s = some s') :
    Moves P s s' := by
  cases m with
  | tick ms =>
      cases h
      exact .tick hp
  | cancel run =>
      cases h
      exact .logged ⟨rfl, rfl, rfl⟩ rfl (by simp [Ev.IsCmd]) (by simp)

theorem startJob_moves {t : Nat} {j : Job} {s s' : Store} {p : Program Unit}
    (h : startJob D t j s = some (p, s')) : Moves P s s' := by
  cases j with
  | process index =>
      simp only [startJob] at h
      split at h
      · cases h
        exact .logged ⟨rfl, rfl, rfl⟩ rfl (by simp [Ev.IsCmd]) (by simp)
      · cases h
  | enqueue ev =>
      cases h
      exact .silent .refl rfl
  | enqueueBatch evs =>
      cases h
      exact .silent .refl rfl
  | setupPartitions =>
      cases h
      exact .silent .refl rfl
  | poll run rounds =>
      cases h
      exact .silent .refl rfl
  | reclaim run pages ticks =>
      cases h
      exact .silent .refl rfl
  | requeue id stream maxLen =>
      cases h
      exact .silent .refl rfl

theorem apply_moves {c c' : Conf (world D)} {a : Action (world D)} (hp : P.Permits c a)
    (h : c.apply a = some c') : Moves P c.store c'.store := by
  rcases Conf.apply_cases h with ⟨t, ch, o, k, r, s', rfl, hk, hex, rfl⟩ | ⟨t, -, rfl⟩ |
    ⟨e, s', rfl, henv, rfl⟩ | ⟨j, p, s', rfl, hst, rfl⟩
  · have hcall : P.call t ch o c.store := by simpa [Policy.Permits, hk] using hp
    exact exec_moves hcall hex
  · exact .silent .refl rfl
  · exact move_moves hp henv
  · exact startJob_moves hst

-- ============================================================================
-- Induction over runs
-- ============================================================================

/-- A property of the store that every permitted step keeps. -/
theorem reachable_invariant {I : Store → Prop} (hinit : I Store.init)
    (hstep : ∀ (c : Conf (world D)) s', P.Reachable Store.init c → I c.store →
      Moves P c.store s' → Valid D s'.log → I s')
    {c : Conf (world D)} (hc : P.Reachable Store.init c) : I c.store := by
  refine Reaches.invariant (I := fun c : Conf (world D) => I c.store) hc hinit ?_
  intro x a y hx hI hp hxy
  have hy : P.Reachable Store.init y := Reaches.tail hx hp hxy
  exact hstep x y.store hx hI (apply_moves hp hxy) (reachable_valid hy).1

theorem reachable_stamped {c : Conf (world D)} (hc : P.Reachable Store.init c) :
    Stamped c.store.log :=
  (Policy.Reachable.ordered rfl hc).stamped

/-- Every event meets a condition on it and on the log before it. -/
def Log.Every (G : Log → Event Ev → Prop) : Log → Prop
  | [] => True
  | e :: h => Log.Every G h ∧ G h e

instance Log.Every.decidable (G : Log → Event Ev → Prop) [∀ h e, Decidable (G h e)] :
    ∀ h, Decidable (Log.Every G h)
  | [] => isTrue trivial
  | _ :: h =>
      have := Log.Every.decidable G h
      inferInstanceAs (Decidable (_ ∧ _))

theorem Log.Every.here {G : Log → Event Ev → Prop} {h₁ h₂ : Log} {e : Event Ev}
    (hg : Log.Every G (h₁ ++ e :: h₂)) : G h₂ e := by
  induction h₁ with
  | nil => exact hg.2
  | cons x h₁ ih => exact ih hg.1

/-- A step logs at most one event. -/
theorem Moves.log_cases {s s' : Store} (hm : Moves P s s') :
    s'.log = s.log ∨ ∃ e, s'.log = e :: s.log := by
  cases hm with
  | redis hp hans => exact Or.inr ⟨_, by rw [Store.record, (answer_frame hans).1]⟩
  | tick hp => exact Or.inl rfl
  | silent hq hlog => exact Or.inl hlog
  | logged hq hlog hcmd hmint => exact Or.inr ⟨_, hlog⟩

/-- The rule for conditions on single events: each is checked when it is logged. -/
theorem reachable_every {G : Log → Event Ev → Prop}
    (hstep : ∀ c s' e, P.Reachable Store.init c → Moves P c.store s' →
      s'.log = e :: c.store.log → Valid D s'.log → G c.store.log e)
    {c : Conf (world D)} (hc : P.Reachable Store.init c) : Log.Every G c.store.log := by
  refine Reaches.invariant (I := fun c : Conf (world D) => Log.Every G c.store.log) hc trivial ?_
  intro x a y hx hI hp hxy
  have hy : P.Reachable Store.init y := Reaches.tail hx hp hxy
  have hm := apply_moves hp hxy
  rcases hm.log_cases with hlog | ⟨e, hlog⟩
  · rw [hlog]
    exact hI
  · have hG := hstep x y.store e hx hm hlog (reachable_valid hy).1
    rw [hlog]
    exact ⟨hI, hG⟩

/-- The next `n` calls of a task in a run, each answered by the same choice. -/
def steps (t n : Nat) (ch : Choice := {}) : List (Action (world D)) :=
  List.replicate n (.step t ch)

end LogPipeline.Cluster
