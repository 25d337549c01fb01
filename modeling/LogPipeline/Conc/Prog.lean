/-
  LogPipeline.Conc.Prog

  Programs over an effect signature.

  A program is the tree of the calls it makes to its environment: each node is
  one call, with one continuation for each answer.  Everything between two calls
  is ordinary Lean, so a function written in `do` notation reads like its source,
  and the points at which it can be interleaved, fail or be killed are exactly
  its calls.

  - `Prog.Path p es q` says that `q` is left of `p` after the calls `es`.
  - `Prog.Uses φ p` says that every call `p` can make satisfies `φ`, and
    `Prog.Yields R p` that every result it can return satisfies `R`.
  - `Prog.solo` runs a program alone, each call answered by a given function, and
    `Prog.soloFor` stops it after a given number of calls.
-/

import Mathlib.Logic.Basic
import Mathlib.Tactic.Common

namespace LogPipeline.Conc

/-- An effect signature: the calls a program may make and the type of the answer
    to each. -/
structure Sig where
  Op : Type
  Res : Op → Type

/-- A program over the signature `S` with result in `α`. -/
inductive Prog (S : Sig) (α : Type) where
  | ret (a : α)
  | call (o : S.Op) (k : S.Res o → Prog S α)

namespace Prog

variable {S : Sig} {α β : Type}

/-- Sequencing: continue each leaf of the first program with the second. -/
def bind : Prog S α → (α → Prog S β) → Prog S β
  | ret a, f => f a
  | call o k, f => call o fun r => (k r).bind f

instance : Monad (Prog S) where
  pure := ret
  bind := bind

/-- The program that makes one call and returns its answer. -/
def perform (o : S.Op) : Prog S (S.Res o) := call o ret

@[simp] theorem pure_eq (a : α) : (pure a : Prog S α) = ret a := rfl

@[simp] theorem bind_eq (p : Prog S α) (f : α → Prog S β) : (p >>= f) = p.bind f := rfl

@[simp] theorem ret_bind (a : α) (f : α → Prog S β) : (ret a : Prog S α).bind f = f a := rfl

@[simp] theorem call_bind (o : S.Op) (k : S.Res o → Prog S α) (f : α → Prog S β) :
    (call o k).bind f = call o fun r => (k r).bind f := rfl

@[simp] theorem perform_bind (o : S.Op) (f : S.Res o → Prog S β) :
    (perform o).bind f = call o f := rfl

/-- What is left of the program after the given calls and their answers. -/
def Path : Prog S α → List ((o : S.Op) × S.Res o) → Prog S α → Prop
  | p, [], q => p = q
  | p, ⟨o, r⟩ :: es, q => ∃ k, p = call o k ∧ (k r).Path es q

-- ============================================================================
-- The calls of a program
-- ============================================================================

/-- Every call the program can make, whatever the answers, satisfies `φ`. -/
def Uses (φ : S.Op → Prop) : Prog S α → Prop
  | ret _ => True
  | call o k => φ o ∧ ∀ r, (k r).Uses φ

theorem Uses.bind {φ : S.Op → Prop} {p : Prog S α} {f : α → Prog S β}
    (hp : p.Uses φ) (hf : ∀ a, (f a).Uses φ) : (p.bind f).Uses φ := by
  induction p with
  | ret a => exact hf a
  | call o k ih => exact ⟨hp.1, fun r => ih r (hp.2 r)⟩

theorem Uses.mono {φ ψ : S.Op → Prop} {p : Prog S α} (h : ∀ o, φ o → ψ o)
    (hp : p.Uses φ) : p.Uses ψ := by
  induction p with
  | ret a => trivial
  | call o k ih => exact ⟨h o hp.1, fun r => ih r (hp.2 r)⟩

/-- Every result the program can return, whatever the answers, satisfies `R`. -/
def Yields (R : α → Prop) : Prog S α → Prop
  | ret a => R a
  | call _ k => ∀ r, (k r).Yields R

theorem Yields.seq {R : α → Prop} {Q : β → Prop} {p : Prog S α} {f : α → Prog S β}
    (hp : p.Yields R) (hf : ∀ a, R a → (f a).Yields Q) : (p.bind f).Yields Q := by
  induction p with
  | ret a => exact hf a hp
  | call o k ih => exact fun r => ih r (hp r)

/-- The calls of a sequence, the second part by what the first can return. -/
theorem Uses.seq {φ : S.Op → Prop} {R : α → Prop} {p : Prog S α} {f : α → Prog S β}
    (hp : p.Uses φ) (hR : p.Yields R) (hf : ∀ a, R a → (f a).Uses φ) : (p.bind f).Uses φ := by
  induction p with
  | ret a => exact hf a hR
  | call o k ih => exact ⟨hp.1, fun r => ih r (hp.2 r) (hR r)⟩

-- ============================================================================
-- Running a program alone
-- ============================================================================

/-- Run a program to its end with nothing else running, each call answered by
    `answer`. -/
def solo {σ : Type} (answer : (o : S.Op) → σ → Option (S.Res o × σ)) :
    Prog S α → σ → Option (α × σ)
  | ret a, s => some (a, s)
  | call o k, s =>
      match answer o s with
      | some (r, s') => (k r).solo answer s'
      | none => none

theorem solo_call {σ : Type} {answer : (o : S.Op) → σ → Option (S.Res o × σ)} {o : S.Op}
    {k : S.Res o → Prog S α} {s s' : σ} {r : S.Res o} (h : answer o s = some (r, s')) :
    (call o k).solo answer s = (k r).solo answer s' := by
  simp only [solo, h]

theorem solo_perform {σ : Type} (answer : (o : S.Op) → σ → Option (S.Res o × σ)) (o : S.Op)
    (s : σ) : (perform o).solo answer s = answer o s := by
  unfold perform solo
  cases answer o s with
  | none => rfl
  | some x => rfl

/-- A solo run of a sequence is a solo run of each part. -/
theorem solo_bind {σ : Type} (answer : (o : S.Op) → σ → Option (S.Res o × σ))
    (p : Prog S α) (f : α → Prog S β) (s : σ) :
    (p.bind f).solo answer s = (p.solo answer s).bind fun x => (f x.1).solo answer x.2 := by
  induction p generalizing s with
  | ret a => rfl
  | call o k ih =>
      simp only [call_bind, solo]
      cases answer o s with
      | none => rfl
      | some x => exact ih x.1 x.2

/-- The second part of a sequence starts where the first has ended. -/
theorem solo_seq {σ : Type} {answer : (o : S.Op) → σ → Option (S.Res o × σ)} {p : Prog S α}
    {a : α} {s s' : σ} (h : p.solo answer s = some (a, s')) (f : α → Prog S β) :
    (p.bind f).solo answer s = (f a).solo answer s' := by
  rw [solo_bind, h]
  rfl

/-- Two ways to answer, the second on more state, that agree on the calls of a program run it
    alike. -/
theorem solo_map {σ τ : Type} {answer : (o : S.Op) → σ → Option (S.Res o × σ)}
    {answer' : (o : S.Op) → τ → Option (S.Res o × τ)} {φ : S.Op → Prop} {f : σ → τ}
    (h : ∀ o s, φ o → answer' o (f s) = (answer o s).map fun x => (x.1, f x.2))
    {p : Prog S α} (hp : p.Uses φ) (s : σ) :
    p.solo answer' (f s) = (p.solo answer s).map fun x => (x.1, f x.2) := by
  induction p generalizing s with
  | ret a => rfl
  | call o k ih =>
      simp only [solo, h o s hp.1]
      cases answer o s with
      | none => rfl
      | some x => exact ih x.1 (hp.2 x.1) x.2

/-- What every call of a program keeps, the whole run keeps. -/
theorem solo_keeps {σ : Type} {answer : (o : S.Op) → σ → Option (S.Res o × σ)} {I : σ → Prop}
    {φ : S.Op → Prop} (h : ∀ o s r s', φ o → I s → answer o s = some (r, s') → I s')
    {p : Prog S α} (hp : p.Uses φ) {a : α} {s s' : σ} (hs : I s)
    (hrun : p.solo answer s = some (a, s')) : I s' := by
  induction p generalizing s with
  | ret b =>
      cases hrun
      exact hs
  | call o k ih =>
      simp only [solo] at hrun
      split at hrun
      · next r s₁ hans => exact ih r (hp.2 r) (h o s r s₁ hp.1 hs hans) hrun
      · cases hrun

/-- A run of a sequence is a run of each part. -/
theorem solo_bind_eq_some {σ : Type} {answer : (o : S.Op) → σ → Option (S.Res o × σ)}
    {p : Prog S α} {f : α → Prog S β} {s : σ} {x : β × σ}
    (h : (p.bind f).solo answer s = some x) :
    ∃ a s', p.solo answer s = some (a, s') ∧ (f a).solo answer s' = some x := by
  rw [solo_bind] at h
  obtain ⟨⟨a, s'⟩, hp, hf⟩ := Option.bind_eq_some_iff.mp h
  exact ⟨a, s', hp, hf⟩

/-- A run of a call is an answer to it and a run of the rest. -/
theorem solo_call_eq_some {σ : Type} {answer : (o : S.Op) → σ → Option (S.Res o × σ)} {o : S.Op}
    {k : S.Res o → Prog S α} {s : σ} {x : α × σ} (h : (call o k).solo answer s = some x) :
    ∃ r s', answer o s = some (r, s') ∧ (k r).solo answer s' = some x := by
  simp only [solo] at h
  split at h
  · next r s' hans => exact ⟨r, s', hans, h⟩
  · cases h

/-- Run a program alone and stop it after `n` calls or at its end: what is left of
    it, and the state. -/
def soloFor {σ : Type} (answer : (o : S.Op) → σ → Option (S.Res o × σ)) :
    Nat → Prog S α → σ → Option (Prog S α × σ)
  | 0, p, s => some (p, s)
  | _ + 1, ret a, s => some (ret a, s)
  | n + 1, call o k, s =>
      match answer o s with
      | some (r, s') => soloFor answer n (k r) s'
      | none => none

theorem soloFor_ret {σ : Type} (answer : (o : S.Op) → σ → Option (S.Res o × σ)) (n : Nat) (a : α)
    (s : σ) : soloFor answer n (ret a) s = some (ret a, s) := by
  cases n with
  | zero => rfl
  | succ n => rfl

/-- A program that has made a call got an answer to it. -/
theorem soloFor_succ {σ : Type} {answer : (o : S.Op) → σ → Option (S.Res o × σ)} {n : Nat}
    {o : S.Op} {k : S.Res o → Prog S α} {s : σ} {x : Prog S α × σ}
    (h : soloFor answer (n + 1) (call o k) s = some x) :
    ∃ r s', answer o s = some (r, s') ∧ soloFor answer n (k r) s' = some x := by
  simp only [soloFor] at h
  split at h
  · next r s' hans => exact ⟨r, s', hans, h⟩
  · cases h

/-- Answer the `i`-th call of a program by `answer i`; the state counts the calls. -/
def counted {σ : Type} (answer : Nat → (o : S.Op) → σ → Option (S.Res o × σ)) (o : S.Op)
    (x : σ × Nat) : Option (S.Res o × σ × Nat) :=
  (answer x.2 o x.1).map fun r => (r.1, r.2, x.2 + 1)

theorem counted_eq_some {σ : Type} {answer : Nat → (o : S.Op) → σ → Option (S.Res o × σ)}
    {o : S.Op} {s s' : σ} {i j : Nat} {r : S.Res o} :
    counted answer o (s, i) = some (r, s', j) ↔ answer i o s = some (r, s') ∧ j = i + 1 := by
  unfold counted
  cases answer i o s with
  | none => simp
  | some x => simp [Prod.ext_iff, and_assoc, eq_comm]

end Prog

end LogPipeline.Conc
