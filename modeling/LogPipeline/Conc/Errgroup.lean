/-
  LogPipeline.Conc.Errgroup

  `errgroup.Group` with the context `errgroup.WithContext` derives for it.

  The derived context is done when the parent context is, when a function of the group
  first returns an error, and when `Wait` returns; `Wait` returns the first error.
-/

import Mathlib.Logic.Basic
import Mathlib.Tactic.Common

namespace LogPipeline.Conc

/-- A group of functions that run concurrently. -/
structure Errgroup (ε : Type) where
  /-- The parent context is done. -/
  parentDone : Bool
  /-- The group has cancelled the derived context. -/
  cancelled : Bool
  /-- The functions that have not returned. -/
  running : Nat
  /-- The first error. -/
  err : Option ε

namespace Errgroup

variable {ε : Type}

/-- `errgroup.WithContext`, on a context that is not done. -/
def withContext : Errgroup ε := ⟨false, false, 0, none⟩

/-- The derived context is done. -/
def ctxDone (g : Errgroup ε) : Bool := g.parentDone || g.cancelled

/-- `g.Go`. -/
def go (g : Errgroup ε) : Errgroup ε := { g with running := g.running + 1 }

/-- `g.Go`, so many times. -/
def goAll (g : Errgroup ε) : Nat → Errgroup ε
  | 0 => g
  | n + 1 => (g.goAll n).go

/-- A function of the group returns; `none` is the nil error. -/
def finish (g : Errgroup ε) (r : Option ε) : Errgroup ε :=
  match g.err, r with
  | none, some e => { g with running := g.running - 1, err := some e, cancelled := true }
  | _, _ => { g with running := g.running - 1 }

/-- The parent context is cancelled, or runs into its deadline. -/
def cancelParent (g : Errgroup ε) : Errgroup ε := { g with parentDone := true }

/-- `g.Wait`, once every function has returned. -/
def wait (g : Errgroup ε) : Option (Option ε × Errgroup ε) :=
  if g.running = 0 then some (g.err, { g with cancelled := true }) else none

@[simp] theorem parentDone_finish (g : Errgroup ε) (r : Option ε) :
    (g.finish r).parentDone = g.parentDone := by
  unfold finish
  split <;> rfl

@[simp] theorem running_finish (g : Errgroup ε) (r : Option ε) :
    (g.finish r).running = g.running - 1 := by
  unfold finish
  split <;> rfl

/-- A function that returns nil only counts down. -/
@[simp] theorem finish_none (g : Errgroup ε) :
    g.finish none = { g with running := g.running - 1 } := by
  unfold finish
  split
  · next h => cases h
  · rfl

theorem goAll_eq (g : Errgroup ε) (n : Nat) : g.goAll n = { g with running := g.running + n } := by
  induction n with
  | zero => rfl
  | succ n ih => rw [goAll, ih, go, Nat.add_assoc]

theorem wait_eq_some {g g' : Errgroup ε} {r : Option ε} (h : g.wait = some (r, g')) :
    g.running = 0 ∧ r = g.err ∧ g' = { g with cancelled := true } := by
  unfold wait at h
  split at h
  · next hzero =>
      cases h
      exact ⟨hzero, rfl, rfl⟩
  · cases h

/-- Once `Wait` has returned the derived context is done. -/
theorem ctxDone_of_wait {g g' : Errgroup ε} {r : Option ε} (h : g.wait = some (r, g')) :
    g'.ctxDone = true := by
  obtain ⟨-, -, rfl⟩ := wait_eq_some h
  unfold ctxDone
  rw [Bool.or_true]

end Errgroup

end LogPipeline.Conc
