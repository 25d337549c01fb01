/-
  LogPipeline.Conc.Lts

  Runs of a transition system whose step is a partial function of an action.

  - `runFrom` folds a list of actions, and is what a concrete run is evaluated
    with.
  - `EveryStep` and `EveryState` say that a condition holds at each step, or a
    property in each state, that a run goes through.
  - `Reaches` is reachability by a run whose steps all meet a condition, and
    `Reaches.invariant` is the induction over such a run, proved once.
-/

import Mathlib.Logic.Function.Basic
import Mathlib.Tactic.Common

namespace LogPipeline.Conc

variable {σ α : Type}

/-- What a family with one member replaced has at an index. -/
theorem update_eq_some {ι β : Type} [DecidableEq ι] {f : ι → Option β} {i j : ι} {y : Option β}
    {x : β} (h : Function.update f i y j = some x) :
    (j = i ∧ y = some x) ∨ (j ≠ i ∧ f j = some x) := by
  by_cases hji : j = i
  · subst hji
    rw [Function.update_self] at h
    exact Or.inl ⟨rfl, h⟩
  · rw [Function.update_of_ne hji] at h
    exact Or.inr ⟨hji, h⟩

-- ============================================================================
-- Runs
-- ============================================================================

/-- The state a list of actions leads to, if every one of them is enabled. -/
def runFrom (step : σ → α → Option σ) : σ → List α → Option σ
  | s, [] => some s
  | s, a :: as =>
      match step s a with
      | some s' => runFrom step s' as
      | none => none

/-- `C` holds of the state before each step and of the action taken there. -/
def EveryStep (step : σ → α → Option σ) (C : σ → α → Prop) : σ → List α → Prop
  | _, [] => True
  | s, a :: as => C s a ∧
      match step s a with
      | some s' => EveryStep step C s' as
      | none => True

/-- `φ` holds in each state the run goes through, its two ends included. -/
def EveryState (step : σ → α → Option σ) (φ : σ → Prop) : σ → List α → Prop
  | s, [] => φ s
  | s, a :: as => φ s ∧
      match step s a with
      | some s' => EveryState step φ s' as
      | none => True

instance EveryStep.decidable (step : σ → α → Option σ) (C : σ → α → Prop)
    [∀ s a, Decidable (C s a)] : ∀ s as, Decidable (EveryStep step C s as)
  | _, [] => isTrue trivial
  | s, a :: as =>
      match h : step s a with
      | some s' =>
          have := EveryStep.decidable step C s' as
          decidable_of_iff (C s a ∧ EveryStep step C s' as) (by simp [EveryStep, h])
      | none => decidable_of_iff (C s a) (by simp [EveryStep, h])

/-- A condition that holds of each action, in any state, holds at each step. -/
theorem everyStep_of_mem {step : σ → α → Option σ} {C : σ → α → Prop} {as : List α}
    (hC : ∀ a ∈ as, ∀ s, C s a) (s : σ) : EveryStep step C s as := by
  induction as generalizing s with
  | nil => trivial
  | cons a as ih =>
      refine ⟨hC a (List.mem_cons_self ..) s, ?_⟩
      split
      · exact ih (fun b hb => hC b (List.mem_cons_of_mem a hb)) _
      · trivial

/-- A condition that always holds holds at each step. -/
theorem everyStep_of_forall {step : σ → α → Option σ} {C : σ → α → Prop} (hC : ∀ s a, C s a)
    (s : σ) (as : List α) : EveryStep step C s as :=
  everyStep_of_mem (fun a _ s => hC s a) s

/-- A run along a concatenation is a run along each part. -/
theorem runFrom_append {step : σ → α → Option σ} {s s' : σ} {as bs : List α} :
    runFrom step s (as ++ bs) = some s' ↔
      ∃ m, runFrom step s as = some m ∧ runFrom step m bs = some s' := by
  induction as generalizing s with
  | nil => simp [runFrom]
  | cons a as ih =>
      simp only [List.cons_append, runFrom]
      cases step s a with
      | none => simp
      | some m => exact ih

/-- The step condition of a concatenation splits at the state in between. -/
theorem everyStep_append {step : σ → α → Option σ} {C : σ → α → Prop} {s m : σ}
    {as bs : List α} (h : runFrom step s as = some m) :
    EveryStep step C s (as ++ bs) ↔ EveryStep step C s as ∧ EveryStep step C m bs := by
  induction as generalizing s with
  | nil =>
      obtain rfl : s = m := by simpa [runFrom] using h
      simp [EveryStep]
  | cons a as ih =>
      simp only [List.cons_append, EveryStep]
      simp only [runFrom] at h
      cases hs : step s a with
      | none => simp [hs] at h
      | some s₁ =>
          simp only [hs] at h ⊢
          rw [ih h, and_assoc]

/-- The first state of a run is one of the states it goes through. -/
theorem EveryState.first {step : σ → α → Option σ} {φ : σ → Prop} {s : σ} {as : List α}
    (hφ : EveryState step φ s as) : φ s := by
  cases as with
  | nil => exact hφ
  | cons a as => exact hφ.1

/-- The last state of a run is one of the states it goes through. -/
theorem EveryState.last {step : σ → α → Option σ} {φ : σ → Prop} {s s' : σ} {as : List α}
    (hφ : EveryState step φ s as) (h : runFrom step s as = some s') : φ s' := by
  induction as generalizing s with
  | nil =>
      obtain rfl : s = s' := by simpa [runFrom] using h
      exact hφ
  | cons a as ih =>
      simp only [runFrom] at h
      obtain ⟨-, hrest⟩ := hφ
      cases hs : step s a with
      | none => simp [hs] at h
      | some s₁ =>
          simp only [hs] at h hrest
          exact ih hrest h

/-- An invariant kept by every step that meets `C` holds all along a run whose
    steps meet `C`. -/
theorem everyState_of_everyStep {step : σ → α → Option σ} {C : σ → α → Prop} {I : σ → Prop}
    (hstep : ∀ s a s', I s → C s a → step s a = some s' → I s') {s : σ} {as : List α}
    (hs : I s) (hC : EveryStep step C s as) : EveryState step I s as := by
  induction as generalizing s with
  | nil => exact hs
  | cons a as ih =>
      obtain ⟨ha, hrest⟩ := hC
      refine ⟨hs, ?_⟩
      cases hsa : step s a with
      | none => trivial
      | some s₁ =>
          simp only [hsa] at hrest
          exact ih (hstep s a s₁ hs ha hsa) hrest

/-- If a step from a state with `I` leads to one with `I` exactly when it meets `C`, and
    every step that is not enabled meets `C`, then `I` holds all along a run exactly
    when its steps meet `C`. -/
theorem everyState_iff_everyStep {step : σ → α → Option σ} {C : σ → α → Prop} {I : σ → Prop}
    (hstep : ∀ s a s', I s → step s a = some s' → (I s' ↔ C s a))
    (hnone : ∀ s a, step s a = none → C s a) {s : σ} {as : List α} (hs : I s) :
    EveryState step I s as ↔ EveryStep step C s as := by
  induction as generalizing s with
  | nil => exact iff_of_true hs trivial
  | cons a as ih =>
      simp only [EveryState, EveryStep, hs, true_and]
      cases hsa : step s a with
      | none => simp [hnone s a hsa]
      | some s₁ =>
          have hiff := hstep s a s₁ hs hsa
          by_cases hC : C s a
          · simp only [hC, true_and]
            exact ih (hiff.mpr hC)
          · -- the state after a step that breaks `C` is without `I`
            simp only [hC, false_and, iff_false]
            exact fun hrest => hC (hiff.mp hrest.first)

/-- Weaken the step condition along a run, using an invariant of it. -/
theorem EveryStep.mono {step : σ → α → Option σ} {C D : σ → α → Prop} {I : σ → Prop}
    (hstep : ∀ s a s', I s → C s a → step s a = some s' → I s')
    (hCD : ∀ s a, I s → C s a → D s a) {s : σ} {as : List α}
    (hs : I s) (hC : EveryStep step C s as) : EveryStep step D s as := by
  induction as generalizing s with
  | nil => trivial
  | cons a as ih =>
      obtain ⟨ha, hrest⟩ := hC
      refine ⟨hCD s a hs ha, ?_⟩
      cases hsa : step s a with
      | none => trivial
      | some s₁ =>
          simp only [hsa] at hrest
          exact ih (hstep s a s₁ hs ha hsa) hrest

-- ============================================================================
-- Reachability under a step condition
-- ============================================================================

/-- `s'` is reached from `s` by a run all of whose steps meet `C`. -/
def Reaches (step : σ → α → Option σ) (C : σ → α → Prop) (s s' : σ) : Prop :=
  ∃ as, runFrom step s as = some s' ∧ EveryStep step C s as

namespace Reaches

variable {step : σ → α → Option σ} {C : σ → α → Prop} {s m s' : σ}

theorem refl : Reaches step C s s := ⟨[], rfl, trivial⟩

theorem trans (h₁ : Reaches step C s m) (h₂ : Reaches step C m s') : Reaches step C s s' := by
  obtain ⟨as, has, hCa⟩ := h₁
  obtain ⟨bs, hbs, hCb⟩ := h₂
  exact ⟨as ++ bs, runFrom_append.mpr ⟨m, has, hbs⟩, (everyStep_append has).mpr ⟨hCa, hCb⟩⟩

theorem single {a : α} (hC : C s a) (h : step s a = some s') : Reaches step C s s' :=
  ⟨[a], by simp [runFrom, h], by simp [EveryStep, h, hC]⟩

theorem tail {a : α} (h : Reaches step C s m) (hC : C m a) (hstep : step m a = some s') :
    Reaches step C s s' :=
  h.trans (single hC hstep)

theorem mono {D : σ → α → Prop} (hCD : ∀ s a, C s a → D s a) (h : Reaches step C s s') :
    Reaches step D s s' := by
  obtain ⟨as, has, hC⟩ := h
  exact ⟨as, has, EveryStep.mono (I := fun _ => True) (fun _ _ _ _ _ _ => trivial)
    (fun s a _ => hCD s a) trivial hC⟩

/-- The induction over a run: what the first state has and every step that meets
    `C` keeps, the last state has.  `hstep` may use that its state is reached. -/
theorem invariant {I : σ → Prop} (h : Reaches step C s s') (hs : I s)
    (hstep : ∀ x a y, Reaches step C s x → I x → C x a → step x a = some y → I y) : I s' := by
  obtain ⟨as, has, hC⟩ := h
  have hkeep : EveryState step (fun x => Reaches step C s x ∧ I x) s as :=
    everyState_of_everyStep
      (fun x a y hx ha hxy => ⟨hx.1.tail ha hxy, hstep x a y hx.1 hx.2 ha hxy⟩) ⟨refl, hs⟩ hC
  exact (hkeep.last has).2

/-- A step condition may as well say that its state is reached. -/
theorem strengthen (h : Reaches step C s s') :
    Reaches step (fun x a => Reaches step C s x ∧ C x a) s s' := by
  obtain ⟨as, has, hC⟩ := h
  refine ⟨as, has, EveryStep.mono (I := fun x => Reaches step C s x) ?_ ?_ refl hC⟩
  · exact fun x a y hx ha hxy => hx.tail ha hxy
  · exact fun x a hx ha => ⟨hx, ha⟩

end Reaches

end LogPipeline.Conc
