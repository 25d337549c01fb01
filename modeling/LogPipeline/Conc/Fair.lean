/-
  LogPipeline.Conc.Fair

  Infinite runs of a transition system, and the rank argument for what they lead to.

  A run may stand still.  It is fair to a class of actions if it takes one of them
  whenever from some point on there always is one to take (`FairRun.fair`); nothing is
  assumed about which one.
-/

import LogPipeline.Conc.Lts
import Mathlib.Algebra.Order.Group.Nat

namespace LogPipeline.Conc

variable {σ α : Type}

/-- Some action of the class is enabled. -/
def CanStep (step : σ → α → Option σ) (internal : α → Prop) (s : σ) : Prop :=
  ∃ a s', internal a ∧ step s a = some s'

/-- An infinite run that is fair to the class `internal` of actions. -/
structure FairRun (step : σ → α → Option σ) (internal : α → Prop) where
  state : Nat → σ
  /-- The action taken at a time, if any. -/
  action : Nat → Option α
  moves : ∀ n a, action n = some a → step (state n) a = some (state (n + 1))
  rests : ∀ n, action n = none → state (n + 1) = state n
  fair : ∀ n, (∀ m ≥ n, CanStep step internal (state m)) →
    ∃ m ≥ n, ∃ a, action m = some a ∧ internal a

namespace FairRun

variable {step : σ → α → Option σ} {internal : α → Prop} (ρ : FairRun step internal)

/-- What every step keeps, a run keeps. -/
theorem keeps {I : σ → Prop} (hstep : ∀ s a s', I s → step s a = some s' → I s') {n : Nat}
    (hn : I (ρ.state n)) {m : Nat} (hm : n ≤ m) : I (ρ.state m) := by
  induction m, hm using Nat.le_induction with
  | base => exact hn
  | succ m hm ih =>
      cases ha : ρ.action m with
      | none =>
          rw [ρ.rests m ha]
          exact ih
      | some a => exact hstep _ a _ ih (ρ.moves m a ha)

/-- If `P` is kept, no step makes the rank larger and those of the class make it
    smaller, and one of them is enabled until `Q` holds, then `P` leads to `Q`. -/
theorem leads_to {P Q : σ → Prop} (rank : σ → Nat)
    (hkeep : ∀ s a s', P s → step s a = some s' → P s')
    (hle : ∀ s a s', P s → step s a = some s' → rank s' ≤ rank s)
    (hlt : ∀ s a s', P s → internal a → step s a = some s' → rank s' < rank s)
    (hcan : ∀ s, P s → ¬ Q s → CanStep step internal s)
    {n : Nat} (hn : P (ρ.state n)) : ∃ m ≥ n, Q (ρ.state m) := by
  induction hr : rank (ρ.state n) using Nat.strong_induction_on generalizing n with
  | _ r ih =>
      by_contra hnever
      have hnot (m : Nat) (hm : m ≥ n) : ¬ Q (ρ.state m) := fun hQ => hnever ⟨m, hm, hQ⟩
      have hP (m : Nat) (hm : m ≥ n) : P (ρ.state m) := ρ.keeps hkeep hn hm
      obtain ⟨m, hm, a, ha, hint⟩ :=
        ρ.fair n fun m hm => hcan _ (hP m hm) (hnot m hm)
      have hbound : P (ρ.state m) ∧ rank (ρ.state m) ≤ r :=
        ρ.keeps (I := fun s => P s ∧ rank s ≤ r)
          (fun s a s' hs h => ⟨hkeep s a s' hs.1 h, (hle s a s' hs.1 h).trans hs.2⟩)
          ⟨hn, hr.le⟩ hm
      have hdrop := hlt _ a _ hbound.1 hint (ρ.moves m a ha)
      obtain ⟨m', hm', hQ⟩ := ih _ (hdrop.trans_le hbound.2) (hP (m + 1) (by omega)) rfl
      exact hnot m' (by omega) hQ

/-- The state of a finite run at a time, its last one once it is over. -/
def stateAt (step : σ → α → Option σ) (s s' : σ) (as : List α) (n : Nat) : σ :=
  (runFrom step s (as.take n)).getD s'

theorem stateAt_of_le {s s' : σ} {as : List α} (hrun : runFrom step s as = some s') {n : Nat}
    (hn : as.length ≤ n) : stateAt step s s' as n = s' := by
  rw [stateAt, List.take_of_length_le hn, hrun, Option.getD_some]

theorem stateAt_moves {s s' : σ} {as : List α} (hrun : runFrom step s as = some s') (n : Nat)
    (a : α) (ha : as[n]? = some a) :
    step (stateAt step s s' as n) a = some (stateAt step s s' as (n + 1)) := by
  obtain ⟨hlt, rfl⟩ := List.getElem?_eq_some_iff.mp ha
  have hsplit : runFrom step s (as.take (n + 1) ++ as.drop (n + 1)) = some s' := by
    rw [List.take_append_drop]
    exact hrun
  obtain ⟨m, hm, -⟩ := runFrom_append.mp hsplit
  have hm' := hm
  rw [List.take_succ_eq_append_getElem hlt] at hm'
  obtain ⟨m₀, hm₀, hstep⟩ := runFrom_append.mp hm'
  rw [stateAt, stateAt, hm, hm₀]
  simp only [Option.getD_some]
  cases hs : step m₀ as[n] with
  | none => simp [runFrom, hs] at hstep
  | some x => simpa [runFrom, hs] using hstep

theorem stateAt_rests {s s' : σ} {as : List α} (hrun : runFrom step s as = some s') (n : Nat)
    (hn : as[n]? = none) : stateAt step s s' as (n + 1) = stateAt step s s' as n := by
  have hle : as.length ≤ n := List.getElem?_eq_none_iff.mp hn
  rw [stateAt_of_le hrun hle, stateAt_of_le hrun (Nat.le_succ_of_le hle)]

theorem stateAt_stuck {s s' : σ} {as : List α} (hrun : runFrom step s as = some s')
    (hstuck : ¬ CanStep step internal s') (n : Nat) :
    ¬ ∀ m ≥ n, CanStep step internal (stateAt step s s' as m) := by
  intro hcan
  have hend := hcan (n + as.length) (Nat.le_add_right n _)
  rw [stateAt_of_le hrun (Nat.le_add_left _ n)] at hend
  exact hstuck hend

/-- A finite run after which no action of the class is enabled, and then nothing. -/
def ofRun {s s' : σ} {as : List α} (hrun : runFrom step s as = some s')
    (hstuck : ¬ CanStep step internal s') : FairRun step internal where
  state := stateAt step s s' as
  action n := as[n]?
  moves := stateAt_moves hrun
  rests := stateAt_rests hrun
  fair n hcan := absurd hcan (stateAt_stuck hrun hstuck n)

theorem ofRun_zero {s s' : σ} {as : List α} (hrun : runFrom step s as = some s')
    (hstuck : ¬ CanStep step internal s') : (ofRun hrun hstuck).state 0 = s := by
  rfl

end FairRun

end LogPipeline.Conc
