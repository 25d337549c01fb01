/-
  LogPipeline.Conc.Pool

  Pools of programs over one shared store, and rely/guarantee reasoning for them.

  A `World` says how one call of a task is answered, what the environment may do
  on its own and which programs may be started.  A configuration of the pool is
  the store with the rest of the program of each live task; an action runs one
  call of one task, kills a task, lets the environment move or starts a program.
  What the environment decides about a call (its failure, a fresh id, a result)
  is the `Choice` in the action, so a run is a list of actions and is evaluated
  by `runFrom`.

  Every call appends at most one event, stamped with its position and its task,
  to the store's history.  That fixes what a task can rely on: the others only
  append events of their own (`Rely`).

  A proof about the pool is an `Outline`: an invariant of the store and, for each
  call, what the caller has to know before it.  `Safe t Q p s` says that `p`, run
  by task `t` from `s` with any interference in between, meets these conditions
  and ends in `Q`; it is proved function by function (`Safe.bind`).
  `Outline.sound` turns it into an invariant of every reachable configuration.
-/

import LogPipeline.Conc.Lts
import LogPipeline.Conc.Prog
import Mathlib.Logic.Function.Basic

namespace LogPipeline.Conc

-- ============================================================================
-- Histories
-- ============================================================================

/-- One recorded event: its position in the history, the task it belongs to
    (`none` for the environment) and what happened. -/
structure Event (E : Type) where
  seq : Nat
  tid : Option Nat
  ev : E

/-- `h'` is `h` with at most one more event, stamped and signed by `who`. -/
def Records {E : Type} (who : Option Nat) (h h' : List (Event E)) : Prop :=
  h' = h ∨ ∃ ev, h' = ⟨h.length, who, ev⟩ :: h

theorem Records.mem {E : Type} {who : Option Nat} {h h' : List (Event E)}
    (hr : Records who h h') {e : Event E} (he : e ∈ h) : e ∈ h' := by
  rcases hr with rfl | ⟨ev, rfl⟩
  · exact he
  · exact List.mem_cons_of_mem _ he

theorem Records.new {E : Type} {who : Option Nat} {h h' : List (Event E)}
    (hr : Records who h h') {e : Event E} (he : e ∈ h') :
    e ∈ h ∨ e.tid = who ∧ e.seq = h.length := by
  rcases hr with rfl | ⟨ev, rfl⟩
  · exact Or.inl he
  · rcases List.mem_cons.mp he with rfl | he
    · exact Or.inr ⟨rfl, rfl⟩
    · exact Or.inl he

/-- Every event carries its position, counted from the oldest. -/
def Stamped {E : Type} : List (Event E) → Prop
  | [] => True
  | e :: h => e.seq = h.length ∧ Stamped h

theorem Stamped.records {E : Type} {who : Option Nat} {h h' : List (Event E)}
    (hs : Stamped h) (hr : Records who h h') : Stamped h' := by
  rcases hr with rfl | ⟨ev, rfl⟩
  · exact hs
  · exact ⟨rfl, hs⟩

theorem Stamped.seq_lt {E : Type} {h : List (Event E)} (hs : Stamped h) {e : Event E}
    (he : e ∈ h) : e.seq < h.length := by
  induction h with
  | nil => simp at he
  | cons a h ih =>
      obtain ⟨ha, hs⟩ := hs
      rcases List.mem_cons.mp he with rfl | he
      · simp [ha]
      · exact Nat.lt_succ_of_lt (ih hs he)

/-- What is further down the history has the smaller position. -/
theorem Stamped.lt_of_later {E : Type} {h₁ h₂ : List (Event E)} {x y : Event E}
    (hs : Stamped (h₁ ++ y :: h₂)) (hx : x ∈ h₂) : x.seq < y.seq := by
  induction h₁ with
  | nil =>
      obtain ⟨hy, hs⟩ := hs
      rw [hy]
      exact hs.seq_lt hx
  | cons z h₁ ih => exact ih hs.2

/-- What is further down the history is what has a smaller position. -/
theorem Stamped.mem_later_iff {E : Type} {h₁ h₂ : List (Event E)} {y : Event E}
    (hs : Stamped (h₁ ++ y :: h₂)) {x : Event E} :
    x ∈ h₂ ↔ x ∈ h₁ ++ y :: h₂ ∧ x.seq < y.seq := by
  refine ⟨fun hx => ⟨by simp [hx], hs.lt_of_later hx⟩, ?_⟩
  rintro ⟨hx, hlt⟩
  rcases List.mem_append.mp hx with hx | hx
  · obtain ⟨a, b, rfl⟩ := List.append_of_mem hx
    rw [List.append_assoc] at hs
    have hgt : y.seq < x.seq := hs.lt_of_later (by simp)
    omega
  · rcases List.mem_cons.mp hx with rfl | hx
    · omega
    · exact hx

-- ============================================================================
-- Worlds and pools
-- ============================================================================

/-- The semantics of a signature: how a call is answered and what else can
    happen to the store. -/
structure World (S : Sig) where
  Store : Type
  Ev : Type
  /-- What the environment decides about one call. -/
  Choice : Type
  /-- Moves of the environment. -/
  Env : Type
  /-- Programs that can be started. -/
  Job : Type
  hist : Store → List (Event Ev)
  /-- The answer to a call of a task; `none` while the call blocks. -/
  exec : Nat → Choice → (o : S.Op) → Store → Option (S.Res o × Store)
  env : Env → Store → Option Store
  start : Nat → Job → Store → Option (Prog S Unit × Store)
  exec_records : ∀ {t ch o s r s'}, exec t ch o s = some (r, s') →
    Records (some t) (hist s) (hist s')
  env_records : ∀ {e s s'}, env e s = some s' → Records none (hist s) (hist s')
  start_records : ∀ {t j s p s'}, start t j s = some (p, s') →
    Records (some t) (hist s) (hist s')

/-- A configuration: the store and what is left of each live task. -/
structure Conf {S : Sig} (W : World S) where
  store : W.Store
  tasks : Nat → Option (Prog S Unit)
  next : Nat

inductive Action {S : Sig} (W : World S) where
  /-- Task `t` makes its next call, or returns. -/
  | step (t : Nat) (ch : W.Choice)
  /-- Task `t` dies where it stands. -/
  | crash (t : Nat)
  | env (e : W.Env)
  | start (j : W.Job)

variable {S : Sig} {W : World S}

namespace Conf

/-- The pool before anything was started. -/
def init (s : W.Store) : Conf W := ⟨s, fun _ => none, 0⟩

/-- Replace what is left of task `t`. -/
def setTask (c : Conf W) (t : Nat) (p : Option (Prog S Unit)) : Conf W :=
  { c with tasks := Function.update c.tasks t p }

/-- The effect of one action; `none` if it is not enabled. -/
def apply (c : Conf W) : Action W → Option (Conf W)
  | .step t ch =>
      match c.tasks t with
      | some (.call o k) =>
          match W.exec t ch o c.store with
          | some (r, s') => some ({ c with store := s' }.setTask t (some (k r)))
          | none => none
      | some (.ret _) => some (c.setTask t none)
      | none => none
  | .crash t => some (c.setTask t none)
  | .env e => (W.env e c.store).map fun s' => { c with store := s' }
  | .start j =>
      match W.start c.next j c.store with
      | some (p, s') =>
          some ({ c with store := s', next := c.next + 1 }.setTask c.next (some p))
      | none => none

end Conf

/-- Which calls, moves, starts and deaths a run may contain: the fault model and
    the assumptions of a result. -/
structure Policy (W : World S) where
  call : Nat → W.Choice → S.Op → W.Store → Prop
  env : W.Env → W.Store → Prop
  start : W.Job → W.Store → Prop
  crash : Nat → W.Store → Prop

namespace Policy

/-- The policy as a condition on the steps of the pool. -/
def Permits (P : Policy W) (c : Conf W) : Action W → Prop
  | .step t ch =>
      match c.tasks t with
      | some (.call o _) => P.call t ch o c.store
      | _ => True
  | .crash t => P.crash t c.store
  | .env e => P.env e c.store
  | .start j => P.start j c.store

instance (P : Policy W) [∀ t ch o s, Decidable (P.call t ch o s)] [∀ e s, Decidable (P.env e s)]
    [∀ j s, Decidable (P.start j s)] [∀ t s, Decidable (P.crash t s)] (c : Conf W) :
    ∀ a, Decidable (P.Permits c a)
  | .step t ch =>
      match h : c.tasks t with
      | some (.call o _) => decidable_of_iff (P.call t ch o c.store) (by simp [Permits, h])
      | some (.ret _) => isTrue (by simp [Permits, h])
      | none => isTrue (by simp [Permits, h])
  | .crash t => decidable_of_iff (P.crash t c.store) Iff.rfl
  | .env e => decidable_of_iff (P.env e c.store) Iff.rfl
  | .start j => decidable_of_iff (P.start j c.store) Iff.rfl

/-- The policy that permits everything. -/
@[reducible] def any : Policy W :=
  ⟨fun _ _ _ _ => True, fun _ _ => True, fun _ _ => True, fun _ _ => True⟩

/-- Reachable from an empty pool over `s₀` by a run the policy permits. -/
def Reachable (P : Policy W) (s₀ : W.Store) (c : Conf W) : Prop :=
  Reaches Conf.apply P.Permits (Conf.init s₀) c

/-- A permitted run that ends in a state with `φ`, given by its actions. -/
theorem exists_reachable {P : Policy W} {s₀ : W.Store} {φ : Conf W → Prop} (as : List (Action W))
    (hsteps : EveryStep Conf.apply P.Permits (Conf.init s₀) as)
    (hrun : ∃ c ∈ runFrom Conf.apply (Conf.init s₀) as, φ c) : ∃ c, P.Reachable s₀ c ∧ φ c := by
  obtain ⟨c, hc, hφ⟩ := hrun
  exact ⟨c, ⟨as, hc, hsteps⟩, hφ⟩

theorem any_permits (c : Conf W) (a : Action W) : any.Permits c a := by
  cases a with
  | step t ch =>
      simp only [Permits]
      split <;> trivial
  | crash t => trivial
  | env e => trivial
  | start j => trivial

@[inherit_doc exists_reachable]
theorem exists_reachable_any {s₀ : W.Store} {φ : Conf W → Prop} (as : List (Action W))
    (hrun : ∃ c ∈ runFrom Conf.apply (Conf.init s₀) as, φ c) :
    ∃ c, (any (W := W)).Reachable s₀ c ∧ φ c :=
  exists_reachable as (everyStep_of_forall any_permits _ _) hrun

end Policy

/-- What one enabled action does, one case for each way the pool can move. -/
theorem Conf.apply_cases {c c' : Conf W} {a : Action W} (h : c.apply a = some c') :
    (∃ t ch o k r s', a = .step t ch ∧ c.tasks t = some (.call o k) ∧
      W.exec t ch o c.store = some (r, s') ∧ c' = { c with store := s' }.setTask t (some (k r))) ∨
    (∃ t, (a = .crash t ∨ ∃ ch u, a = .step t ch ∧ c.tasks t = some (.ret u)) ∧
      c' = c.setTask t none) ∨
    (∃ e s', a = .env e ∧ W.env e c.store = some s' ∧ c' = { c with store := s' }) ∨
    (∃ j p s', a = .start j ∧ W.start c.next j c.store = some (p, s') ∧
      c' = { c with store := s', next := c.next + 1 }.setTask c.next (some p)) := by
  cases a with
  | step t ch =>
      simp only [Conf.apply] at h
      split at h
      · next o k hk =>
          split at h
          · next r s' hex =>
              cases h
              exact Or.inl ⟨t, ch, o, k, r, s', rfl, hk, hex, rfl⟩
          · cases h
      · next u hu =>
          cases h
          exact Or.inr (Or.inl ⟨t, Or.inr ⟨ch, u, rfl, hu⟩, rfl⟩)
      · cases h
  | crash t =>
      cases h
      exact Or.inr (Or.inl ⟨t, Or.inl rfl, rfl⟩)
  | env e =>
      obtain ⟨s', hs', rfl⟩ := Option.map_eq_some_iff.mp h
      exact Or.inr (Or.inr (Or.inl ⟨e, s', rfl, hs', rfl⟩))
  | start j =>
      simp only [Conf.apply] at h
      split at h
      · next p s' hst =>
          cases h
          exact Or.inr (Or.inr (Or.inr ⟨j, p, s', rfl, hst, rfl⟩))
      · cases h

/-- A task makes the call it is at. -/
theorem Conf.apply_call {c : Conf W} {t : Nat} {ch : W.Choice} {o : S.Op}
    {k : S.Res o → Prog S Unit} {r : S.Res o} {s' : W.Store} (ht : c.tasks t = some (.call o k))
    (hex : W.exec t ch o c.store = some (r, s')) :
    c.apply (.step t ch) = some ({ c with store := s' }.setTask t (some (k r))) := by
  simp only [Conf.apply, ht, hex]

/-- A program that is started and makes its first call at once. -/
theorem Policy.Reachable.start_call {P : Policy W} {s₀ : W.Store} {c : Conf W}
    (hc : P.Reachable s₀ c) {j : W.Job} {o : S.Op} {k : S.Res o → Prog S Unit} {s₁ s₂ : W.Store}
    {ch : W.Choice} {r : S.Res o} (hstart : P.start j c.store)
    (hst : W.start c.next j c.store = some (.call o k, s₁)) (hcall : P.call c.next ch o s₁)
    (hex : W.exec c.next ch o s₁ = some (r, s₂)) : ∃ c', P.Reachable s₀ c' ∧ c'.store = s₂ := by
  have hperm : P.Permits c (.start j) := hstart
  have hbegun : c.apply (.start j) =
      some ({ c with store := s₁, next := c.next + 1 }.setTask c.next (some (.call o k))) := by
    simp only [Conf.apply, hst]
  have htask : (Conf.setTask ⟨s₁, c.tasks, c.next + 1⟩ c.next (some (.call o k)) : Conf W).tasks
      c.next = some (.call o k) := Function.update_self ..
  refine ⟨_, Reaches.tail (Reaches.tail hc hperm hbegun) ?_ (Conf.apply_call htask hex), rfl⟩
  simp only [Policy.Permits, htask]
  exact hcall

/-- The bookkeeping every reachable configuration has: stamped history, and task
    ids below `next`. -/
structure Conf.Ordered (c : Conf W) : Prop where
  stamped : Stamped (W.hist c.store)
  tid_lt : ∀ e ∈ W.hist c.store, ∀ t, e.tid = some t → t < c.next
  task_lt : ∀ t, c.tasks t ≠ none → t < c.next

theorem Conf.Ordered.step {c c' : Conf W} {a : Action W} (ho : c.Ordered)
    (h : c.apply a = some c') : c'.Ordered := by
  rcases Conf.apply_cases h with ⟨t, ch, o, k, r, s', -, hk, hex, rfl⟩ | ⟨t, -, rfl⟩ |
    ⟨e, s', -, henv, rfl⟩ | ⟨j, p, s', -, hst, rfl⟩
  · have hrec := W.exec_records hex
    refine ⟨ho.stamped.records hrec, ?_, ?_⟩
    · intro e he u hu
      rcases hrec.new he with he | ⟨htid, -⟩
      · exact ho.tid_lt e he u hu
      · obtain rfl : t = u := by simpa [htid] using hu
        exact ho.task_lt t (by simp [hk])
    · intro u hu
      by_cases hut : u = t
      · subst hut
        exact ho.task_lt u (by simp [hk])
      · exact ho.task_lt u (by simpa [Conf.setTask, Function.update_of_ne hut] using hu)
  · refine ⟨ho.stamped, ho.tid_lt, ?_⟩
    intro u hu
    by_cases hut : u = t
    · subst hut
      simp [Conf.setTask] at hu
    · exact ho.task_lt u (by simpa [Conf.setTask, Function.update_of_ne hut] using hu)
  · have hrec := W.env_records henv
    refine ⟨ho.stamped.records hrec, ?_, ho.task_lt⟩
    intro x hx u hu
    rcases hrec.new hx with hx | ⟨htid, -⟩
    · exact ho.tid_lt x hx u hu
    · simp [htid] at hu
  · have hrec := W.start_records hst
    refine ⟨ho.stamped.records hrec, ?_, ?_⟩
    · intro e he u hu
      rcases hrec.new he with he | ⟨htid, -⟩
      · exact Nat.lt_succ_of_lt (ho.tid_lt e he u hu)
      · obtain rfl : c.next = u := by simpa [htid] using hu
        exact Nat.lt_succ_self _
    · intro u hu
      by_cases hut : u = c.next
      · subst hut
        exact Nat.lt_succ_self _
      · exact Nat.lt_succ_of_lt
          (ho.task_lt u (by simpa [Conf.setTask, Function.update_of_ne hut] using hu))

theorem Policy.Reachable.ordered {P : Policy W} {s₀ : W.Store} {c : Conf W}
    (hs₀ : W.hist s₀ = []) (h : P.Reachable s₀ c) : c.Ordered := by
  refine Reaches.invariant h ⟨?_, ?_, ?_⟩ (fun x a y _ hx _ hxy => hx.step hxy)
  · simp [Conf.init, hs₀, Stamped]
  · simp [Conf.init, hs₀]
  · simp [Conf.init]

-- ============================================================================
-- Rely/guarantee
-- ============================================================================

/-- What task `t` can count on while it waits: the history only grows, and none
    of the new events is its own. -/
def Rely (W : World S) (t : Nat) (s s' : W.Store) : Prop :=
  ∃ ext, W.hist s' = ext ++ W.hist s ∧ ∀ e ∈ ext, e.tid ≠ some t

namespace Rely

variable {t : Nat} {s s' s'' : W.Store}

theorem refl : Rely W t s s := ⟨[], rfl, by simp⟩

theorem trans (h : Rely W t s s') (h' : Rely W t s' s'') : Rely W t s s'' := by
  obtain ⟨x, hx, hxt⟩ := h
  obtain ⟨y, hy, hyt⟩ := h'
  refine ⟨y ++ x, by rw [hy, hx, List.append_assoc], ?_⟩
  intro e he
  rcases List.mem_append.mp he with he | he
  · exact hyt e he
  · exact hxt e he

theorem mem (h : Rely W t s s') {e : Event W.Ev} (he : e ∈ W.hist s) : e ∈ W.hist s' := by
  obtain ⟨x, hx, -⟩ := h
  rw [hx]
  exact List.mem_append_right _ he

theorem of_records {who : Option Nat} (h : Records who (W.hist s) (W.hist s'))
    (hwho : who ≠ some t) : Rely W t s s' := by
  rcases h with h | ⟨ev, h⟩
  · exact ⟨[], h, by simp⟩
  · exact ⟨[_], h, by simpa using hwho⟩

end Rely

/-- A proof outline for the runs permitted by `P`.  `Known` is what has been
    proved of every reachable store before, `Inv` the invariant being proved and
    `Pre` what task `t` has to know before the call `o`. -/
structure Outline (P : Policy W) where
  Known : W.Store → Prop
  Inv : W.Store → Prop
  Pre : Nat → S.Op → W.Store → Prop
  inv_call : ∀ {t ch o s r s'}, Known s → Inv s → Pre t o s → P.call t ch o s →
    W.exec t ch o s = some (r, s') → Known s' → Inv s'
  inv_env : ∀ {e s s'}, Known s → Inv s → P.env e s → W.env e s = some s' → Known s' → Inv s'

variable {P : Policy W} {α β : Type}

/-- Task `t` can run the program from `s`, whatever the others do in between: it
    meets the condition of each call it makes, and where it returns `Q` holds. -/
def Safe (O : Outline P) (t : Nat) (Q : α → W.Store → Prop) : Prog S α → W.Store → Prop
  | .ret a, s => Q a s
  | .call o k, s => ∀ s', Rely W t s s' → O.Known s' → O.Inv s' → O.Pre t o s' ∧
      ∀ ch r s'', P.call t ch o s' → W.exec t ch o s' = some (r, s'') →
        O.Known s'' → O.Inv s'' → Safe O t Q (k r) s''

namespace Safe

variable {O : Outline P} {t : Nat} {s s' : W.Store}

theorem mono {Q Q' : α → W.Store → Prop} (hQ : ∀ a s, Q a s → Q' a s) {p : Prog S α}
    (h : Safe O t Q p s) : Safe O t Q' p s := by
  induction p generalizing s with
  | ret a => exact hQ a s h
  | call o k ih =>
      intro s' hr hk hi
      obtain ⟨hpre, hnext⟩ := h s' hr hk hi
      exact ⟨hpre, fun ch r s'' hp hex hk' hi' => ih r (hnext ch r s'' hp hex hk' hi')⟩

/-- The sequencing rule: the first program establishes what the second starts
    from. -/
theorem bind {Q : β → W.Store → Prop} {p : Prog S α} {f : α → Prog S β}
    (h : Safe O t (fun a s => Safe O t Q (f a) s) p s) : Safe O t Q (p.bind f) s := by
  induction p generalizing s with
  | ret a => exact h
  | call o k ih =>
      intro s' hr hk hi
      obtain ⟨hpre, hnext⟩ := h s' hr hk hi
      exact ⟨hpre, fun ch r s'' hp hex hk' hi' => ih r (hnext ch r s'' hp hex hk' hi')⟩

/-- Sequencing with a named postcondition for the first program. -/
theorem seq {R : α → W.Store → Prop} {Q : β → W.Store → Prop} {p : Prog S α} {f : α → Prog S β}
    (hp : Safe O t R p s) (hf : ∀ a s, R a s → Safe O t Q (f a) s) :
    Safe O t Q (p.bind f) s :=
  bind (hp.mono hf)

/-- Interference by the others does not make a waiting task unsafe. -/
theorem rely {p : Prog S α} (h : Safe O t (fun _ _ => True) p s) (hr : Rely W t s s') :
    Safe O t (fun _ _ => True) p s' := by
  cases p with
  | ret a => trivial
  | call o k => exact fun s'' hr' => h s'' (hr.trans hr')

end Safe

/-- Soundness of outlines.  If the outline's invariant holds at the start and
    every program is safe when it is started (by a task that has recorded
    nothing but its start), then in every reachable configuration the invariant
    holds and the rest of every task is safe. -/
theorem Outline.sound (O : Outline P) {s₀ : W.Store} (hs₀ : W.hist s₀ = [])
    (hknown : ∀ c, P.Reachable s₀ c → O.Known c.store) (hinit : O.Inv s₀)
    (hstart : ∀ t j s p s', O.Known s → O.Inv s → P.start j s →
      (∀ e ∈ W.hist s, e.tid ≠ some t) → W.start t j s = some (p, s') → O.Known s' →
      O.Inv s' ∧ Safe O t (fun _ _ => True) p s')
    {c : Conf W} (hc : P.Reachable s₀ c) :
    O.Inv c.store ∧ ∀ t p, c.tasks t = some p → Safe O t (fun _ _ => True) p c.store := by
  refine Reaches.invariant (I := fun c => O.Inv c.store ∧
    ∀ t p, c.tasks t = some p → Safe O t (fun _ _ => True) p c.store) hc
    ⟨hinit, by simp [Conf.init]⟩ ?_
  intro x a y hx ⟨hinv, hsafe⟩ hperm hxy
  have hy : P.Reachable s₀ y := Reaches.tail hx hperm hxy
  have hkx := hknown x hx
  have hky := hknown y hy
  rcases Conf.apply_cases hxy with ⟨t, ch, o, k, r, s', rfl, hk, hex, rfl⟩ | ⟨t, -, rfl⟩ |
    ⟨e, s', rfl, henv, rfl⟩ | ⟨j, p, s', rfl, hst, rfl⟩
  · -- task `t` makes a call: its own condition holds, the others rely on it
    have hcall : P.call t ch o x.store := by simpa [Policy.Permits, hk] using hperm
    obtain ⟨hpre, hnext⟩ := hsafe t _ hk x.store Rely.refl hkx hinv
    have hinv' : O.Inv s' := O.inv_call hkx hinv hpre hcall hex hky
    refine ⟨hinv', ?_⟩
    intro u p hu
    by_cases hut : u = t
    · subst hut
      obtain rfl : k r = p := by simpa [Conf.setTask] using hu
      exact hnext ch r s' hcall hex hky hinv'
    · have hu' : x.tasks u = some p := by
        simpa [Conf.setTask, Function.update_of_ne hut] using hu
      exact (hsafe u p hu').rely (Rely.of_records (W.exec_records hex)
        (by simpa using fun h => hut h.symm))
  · refine ⟨hinv, ?_⟩
    intro u p hu
    by_cases hut : u = t
    · subst hut
      simp [Conf.setTask] at hu
    · exact hsafe u p (by simpa [Conf.setTask, Function.update_of_ne hut] using hu)
  · refine ⟨O.inv_env hkx hinv hperm henv hky, ?_⟩
    intro u p hu
    exact (hsafe u p hu).rely (Rely.of_records (W.env_records henv) (by simp))
  · have hord := Policy.Reachable.ordered hs₀ hx
    have hfresh : ∀ e ∈ W.hist x.store, e.tid ≠ some x.next := fun e he ht =>
      Nat.lt_irrefl _ (hord.tid_lt e he _ ht)
    obtain ⟨hinv', hsafe'⟩ := hstart x.next j x.store p s' hkx hinv hperm hfresh hst hky
    refine ⟨hinv', ?_⟩
    intro u q hu
    by_cases hut : u = x.next
    · subst hut
      obtain rfl : p = q := by simpa [Conf.setTask] using hu
      exact hsafe'
    · have hu' : x.tasks u = some q := by
        simpa [Conf.setTask, Function.update_of_ne hut] using hu
      exact (hsafe u q hu').rely (Rely.of_records (W.start_records hst)
        (by simpa using fun h => hut h.symm))

end LogPipeline.Conc
