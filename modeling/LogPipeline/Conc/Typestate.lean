/-
  LogPipeline.Conc.Typestate

  Control states for the tasks of a pool.

  A `Typestate` is an automaton over the calls of a signature: in which control
  state which call may be made, which state each answer leads to, and where a
  program may return.  `Typed A Q p x` says that the program `p` follows the
  automaton from the state `x`; it is proved function by function, with
  `Typed.seq` for sequencing.

  In a pool whose programs follow the automaton every live task is in some
  control state.  `Typestate.sound` is the induction over runs for invariants that
  relate the pool to the control states of its tasks; `tally` counts tasks by
  their states, and `tally_update` is how a single step changes a count.
-/

import LogPipeline.Conc.Pool

namespace LogPipeline.Conc

variable {S : Sig} {W : World S} {T α β : Type}

-- ============================================================================
-- Programs that follow an automaton
-- ============================================================================

/-- An automaton over the calls of a signature. -/
structure Typestate (S : Sig) (T : Type) where
  /-- From which state a call with this answer leads to which. -/
  Next : T → (o : S.Op) → S.Res o → T → Prop
  /-- The states in which a program may return. -/
  Final : T → Prop

/-- The program follows the automaton from the state `x`, and where it returns
    `Q` holds of the result and the state. -/
def Typed (A : Typestate S T) (Q : α → T → Prop) : Prog S α → T → Prop
  | .ret a, x => Q a x
  | .call o k, x => ∀ r, ∃ y, A.Next x o r y ∧ Typed A Q (k r) y

namespace Typed

variable {A : Typestate S T} {x : T}

theorem mono {Q Q' : α → T → Prop} (hQ : ∀ a y, Q a y → Q' a y) {p : Prog S α}
    (h : Typed A Q p x) : Typed A Q' p x := by
  induction p generalizing x with
  | ret a => exact hQ a x h
  | call o k ih =>
      intro r
      obtain ⟨y, hy, hk⟩ := h r
      exact ⟨y, hy, ih r hk⟩

/-- The sequencing rule. -/
theorem seq {R : α → T → Prop} {Q : β → T → Prop} {p : Prog S α} {f : α → Prog S β}
    (hp : Typed A R p x) (hf : ∀ a y, R a y → Typed A Q (f a) y) : Typed A Q (p.bind f) x := by
  induction p generalizing x with
  | ret a => exact hf a x hp
  | call o k ih =>
      intro r
      obtain ⟨y, hy, hk⟩ := hp r
      exact ⟨y, hy, ih r hk⟩

/-- The calls of a program, from the states it goes through. -/
theorem uses [∀ o, Nonempty (S.Res o)] {J : T → Prop} {φ : S.Op → Prop}
    (hJ : ∀ {x o r y}, J x → A.Next x o r y → φ o ∧ J y) {Q : α → T → Prop} {p : Prog S α}
    (h : Typed A Q p x) (hx : J x) : p.Uses φ := by
  induction p generalizing x with
  | ret a => trivial
  | call o k ih =>
      obtain ⟨r⟩ := ‹∀ o, Nonempty (S.Res o)› o
      obtain ⟨y, hy, -⟩ := h r
      refine ⟨(hJ hx hy).1, fun r => ?_⟩
      obtain ⟨z, hz, hrest⟩ := h r
      exact ih r hrest (hJ hx hz).2

/-- A program whose calls do not leave a state stays in it. -/
theorem of_uses {φ : S.Op → Prop} (hφ : ∀ o r, φ o → A.Next x o r x) {p : Prog S α}
    (hp : p.Uses φ) : Typed A (fun _ y => y = x) p x := by
  induction p with
  | ret a => rfl
  | call o k ih => exact fun r => ⟨x, hφ o r hp.1, ih r (hp.2 r)⟩

end Typed

-- ============================================================================
-- Pools that follow an automaton
-- ============================================================================

/-- Every live task is in a control state from which what is left of it follows
    the automaton. -/
structure Follows (A : Typestate S T) (c : Conf W) (st : Nat → Option T) : Prop where
  live : ∀ t p, c.tasks t = some p → ∃ x, st t = some x ∧ Typed A (fun _ y => A.Final y) p x
  dead : ∀ t, c.tasks t = none → st t = none

/-- A task that is about to make a call is in a state in which it may. -/
theorem Follows.next {A : Typestate S T} {c : Conf W} {st : Nat → Option T} (h : Follows A c st)
    {t : Nat} {o : S.Op} {k : S.Res o → Prog S Unit} (ht : c.tasks t = some (.call o k)) :
    ∃ x, st t = some x ∧ ∀ r, ∃ y, A.Next x o r y := by
  obtain ⟨x, hx, htyped⟩ := h.live t _ ht
  refine ⟨x, hx, fun r => ?_⟩
  obtain ⟨y, hy, -⟩ := htyped r
  exact ⟨y, hy⟩

theorem Follows.update {A : Typestate S T} {c : Conf W} {st : Nat → Option T} (h : Follows A c st)
    (s' : W.Store) (n t : Nat) {p : Prog S Unit} {x : T}
    (hp : Typed A (fun _ y => A.Final y) p x) :
    Follows A (Conf.setTask ⟨s', c.tasks, n⟩ t (some p)) (Function.update st t (some x)) := by
  constructor
  · intro u q hu
    rcases update_eq_some hu with ⟨rfl, hq⟩ | ⟨hut, hu⟩
    · cases hq
      exact ⟨x, by simp, hp⟩
    · rw [Function.update_of_ne hut]
      exact h.live u q hu
  · intro u hu
    by_cases hut : u = t
    · subst hut
      simp [Conf.setTask] at hu
    · rw [Function.update_of_ne hut]
      exact h.dead u (by simpa [Conf.setTask, Function.update_of_ne hut] using hu)

theorem Follows.drop {A : Typestate S T} {c : Conf W} {st : Nat → Option T} (h : Follows A c st)
    (t : Nat) : Follows A (c.setTask t none) (Function.update st t none) := by
  constructor
  · intro u q hu
    rcases update_eq_some hu with ⟨-, hq⟩ | ⟨hut, hu⟩
    · cases hq
    · rw [Function.update_of_ne hut]
      exact h.live u q hu
  · intro u hu
    by_cases hut : u = t
    · subst hut
      simp
    · rw [Function.update_of_ne hut]
      exact h.dead u (by simpa [Conf.setTask, Function.update_of_ne hut] using hu)

/-- One call of a task, in the pool and in the automaton. -/
structure CallStep (A : Typestate S T) (c : Conf W) (st : Nat → Option T) (t : Nat)
    (ch : W.Choice) (o : S.Op) (k : S.Res o → Prog S Unit) (r : S.Res o) (s' : W.Store)
    (x y : T) : Prop where
  lt : t < c.next
  task : c.tasks t = some (.call o k)
  exec : W.exec t ch o c.store = some (r, s')
  stage : st t = some x
  next : A.Next x o r y

/-- An invariant of the pool and the control states of its tasks, as the steps that
    meet `C` have to keep it. -/
structure Typestate.Keeps (A : Typestate S T) (C : Conf W → Action W → Prop)
    (I : Conf W → (Nat → Option T) → Prop) : Prop where
  call : ∀ {c st t ch o k r s' x y}, I c st → C c (.step t ch) →
    CallStep A c st t ch o k r s' x y →
    Follows A ({ c with store := s' }.setTask t (some (k r))) (Function.update st t (some y)) →
    I ({ c with store := s' }.setTask t (some (k r))) (Function.update st t (some y))
  ret : ∀ {c st t x}, I c st → t < c.next → st t = some x → A.Final x →
    I (c.setTask t none) (Function.update st t none)
  crash : ∀ {c st t}, I c st → C c (.crash t) → I (c.setTask t none) (Function.update st t none)
  env : ∀ {c st e s'}, I c st → C c (.env e) → W.env e c.store = some s' →
    I { c with store := s' } st
  start : ∀ {c st j p s'}, I c st → (∀ t, c.next ≤ t → st t = none) → C c (.start j) →
    W.start c.next j c.store = some (p, s') →
    ∃ x, Typed A (fun _ y => A.Final y) p x ∧
      I ({ c with store := s', next := c.next + 1 }.setTask c.next (some p))
        (Function.update st c.next (some x))

/-- In every reachable configuration the tasks are in control states for which the
    invariant holds. -/
theorem Typestate.sound (A : Typestate S T) {C : Conf W → Action W → Prop}
    {I : Conf W → (Nat → Option T) → Prop} (hI : A.Keeps C I) {s₀ : W.Store}
    (hs₀ : W.hist s₀ = []) (hinit : I (Conf.init s₀) fun _ => none) {c : Conf W}
    (hc : Reaches Conf.apply C (Conf.init s₀) c) : ∃ st, Follows A c st ∧ I c st := by
  refine Reaches.invariant (I := fun c : Conf W => ∃ st, Follows A c st ∧ I c st) hc
    ⟨fun _ => none, ⟨?_, fun _ _ => rfl⟩, hinit⟩ ?_
  · intro t p h
    cases h
  intro x a y hx ⟨st, hf, hinv⟩ hperm hxy
  have hord := Policy.Reachable.ordered hs₀ (hx.mono fun c a _ => Policy.any_permits c a)
  rcases Conf.apply_cases hxy with ⟨t, ch, o, k, r, s', rfl, hk, hex, rfl⟩ | ⟨t, hover, rfl⟩ |
    ⟨e, s', rfl, henv, rfl⟩ | ⟨j, p, s', rfl, hst, rfl⟩
  · obtain ⟨z, hz, htyped⟩ := hf.live t _ hk
    obtain ⟨z', hnext, hrest⟩ := htyped r
    have hf' := hf.update s' x.next t hrest
    exact ⟨_, hf', hI.call hinv hperm ⟨hord.task_lt t (by simp [hk]), hk, hex, hz, hnext⟩ hf'⟩
  · refine ⟨_, hf.drop t, ?_⟩
    rcases hover with rfl | ⟨ch, u, rfl, hu⟩
    · exact hI.crash hinv hperm
    · obtain ⟨z, hz, hfinal⟩ := hf.live t _ hu
      exact hI.ret hinv (hord.task_lt t (by simp [hu])) hz hfinal
  · exact ⟨st, ⟨hf.live, hf.dead⟩, hI.env hinv hperm henv⟩
  · have hfree : ∀ t, x.next ≤ t → st t = none := by
      intro t ht
      refine hf.dead t ?_
      by_contra hne
      exact absurd (hord.task_lt t hne) (Nat.not_lt.mpr ht)
    obtain ⟨z, htyped, hinv'⟩ := hI.start hinv hfree hperm hst
    exact ⟨_, hf.update s' (x.next + 1) x.next htyped, hinv'⟩

-- ============================================================================
-- Counting tasks by their control states
-- ============================================================================

/-- The weight of a task: that of its control state, or nothing if it is not
    live. -/
def weight (w : T → Nat) : Option T → Nat
  | none => 0
  | some x => w x

/-- The weights of the first `n` tasks, added up. -/
def tally (w : T → Nat) (st : Nat → Option T) : Nat → Nat
  | 0 => 0
  | n + 1 => tally w st n + weight w (st n)

variable {w : T → Nat} {st : Nat → Option T} {n t : Nat}

theorem tally_congr {st' : Nat → Option T} {w' : T → Nat}
    (h : ∀ t < n, weight w (st t) = weight w' (st' t)) : tally w st n = tally w' st' n := by
  induction n with
  | zero => rfl
  | succ n ih =>
      have hrest := ih fun t ht => h t (Nat.lt_succ_of_lt ht)
      have hlast := h n (Nat.lt_succ_self n)
      rw [tally, tally, hrest, hlast]

/-- Changing the state of one task moves the count by the difference of the two
    weights. -/
theorem tally_update (ht : t < n) (y : Option T) :
    tally w (Function.update st t y) n + weight w (st t) = tally w st n + weight w y := by
  induction n with
  | zero => exact absurd ht (Nat.not_lt_zero t)
  | succ n ih =>
      rw [tally, tally]
      by_cases hn : t = n
      · subst hn
        have hrest : tally w (Function.update st t y) t = tally w st t := by
          apply tally_congr
          intro u hu
          rw [Function.update_of_ne (Nat.ne_of_lt hu)]
        rw [hrest, Function.update_self]
        omega
      · have := ih (by omega)
        rw [Function.update_of_ne (Ne.symm hn)]
        omega

/-- A task that is over adds nothing any more. -/
theorem tally_drop : tally w (Function.update st t none) n ≤ tally w st n := by
  by_cases ht : t < n
  · have hupdate := @tally_update _ w st n t ht none
    rw [weight] at hupdate
    omega
  · refine Nat.le_of_eq (tally_congr fun u hu => ?_)
    rw [Function.update_of_ne (by omega)]

/-- A new task adds its weight. -/
theorem tally_push (y : Option T) :
    tally w (Function.update st n y) (n + 1) = tally w st n + weight w y := by
  have hrest : tally w (Function.update st n y) n = tally w st n := by
    apply tally_congr
    intro u hu
    rw [Function.update_of_ne (Nat.ne_of_lt hu)]
  rw [tally, hrest, Function.update_self]

theorem tally_add {v : T → Nat} :
    tally (fun x => w x + v x) st n = tally w st n + tally v st n := by
  induction n with
  | zero => rfl
  | succ n ih =>
      rw [tally, tally, tally, ih]
      cases st n with
      | none => simp only [weight]; omega
      | some x => simp only [weight]; omega

/-- A count of tasks with a property. -/
theorem tally_eq_length {p : Nat → Bool} (h : ∀ t < n, weight w (st t) = if p t then 1 else 0) :
    tally w st n = ((List.range n).filter p).length := by
  induction n with
  | zero => rfl
  | succ n ih =>
      have hrest := ih fun t ht => h t (Nat.lt_succ_of_lt ht)
      have hlast := h n (Nat.lt_succ_self n)
      rw [tally, hrest, hlast, List.range_succ, List.filter_append, List.length_append]
      cases hp : p n <;> simp [hp]

theorem tally_le {w' : T → Nat} (h : ∀ t < n, weight w (st t) ≤ weight w' (st t)) :
    tally w st n ≤ tally w' st n := by
  induction n with
  | zero => exact Nat.le_refl 0
  | succ n ih =>
      have hrest := ih fun t ht => h t (Nat.lt_succ_of_lt ht)
      have hlast := h n (Nat.lt_succ_self n)
      rw [tally, tally]
      omega

end LogPipeline.Conc
