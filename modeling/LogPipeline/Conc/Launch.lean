/-
  LogPipeline.Conc.Launch

  Which program each task of a pool runs.

  The programs a run starts get the task numbers 0, 1, .. in order, so the list of the
  started programs says what each task is.  `LaunchRule.sound` is the induction over
  runs for invariants that relate the store to this list: a step may use what the
  program of its task uses.
-/

import LogPipeline.Conc.Pool

namespace LogPipeline.Conc

variable {S : Sig} {W : World S}

/-- The program that an action starts. -/
def Action.job : Action W → Option W.Job
  | .start j => some j
  | _ => none

/-- The programs that the actions start, in order. -/
def launched (as : List (Action W)) : List W.Job := as.filterMap Action.job

theorem launched_cons (a : Action W) (as : List (Action W)) :
    launched (a :: as) = a.job.toList ++ launched as := by
  unfold launched
  cases hj : a.job with
  | none => rw [List.filterMap_cons_none hj, Option.toList_none, List.nil_append]
  | some j => rw [List.filterMap_cons_some hj, Option.toList_some, List.singleton_append]

/-- An invariant of the store and the programs started so far, as single steps have to
    keep it.  `φ j` is what the program `j` may call. -/
structure LaunchRule (φ : W.Job → S.Op → Prop) (I : List W.Job → W.Store → Prop) : Prop where
  uses : ∀ {t j s p s'}, W.start t j s = some (p, s') → p.Uses (φ j)
  call : ∀ {jobs t j ch o s r s'}, I jobs s → jobs[t]? = some j → φ j o →
    W.exec t ch o s = some (r, s') → I jobs s'
  env : ∀ {jobs e s s'}, I jobs s → W.env e s = some s' → I jobs s'
  start : ∀ {jobs j s p s'}, I jobs s → W.start jobs.length j s = some (p, s') →
    I (jobs ++ [j]) s'

/-- The pool after the given programs were started. -/
structure LaunchInv (φ : W.Job → S.Op → Prop) (I : List W.Job → W.Store → Prop)
    (jobs : List W.Job) (c : Conf W) : Prop where
  next : c.next = jobs.length
  store : I jobs c.store
  task : ∀ t p, c.tasks t = some p → ∃ j, jobs[t]? = some j ∧ p.Uses (φ j)

variable {φ : W.Job → S.Op → Prop} {I : List W.Job → W.Store → Prop} {jobs : List W.Job}

theorem LaunchInv.step (hrule : LaunchRule φ I) {c c' : Conf W} {a : Action W}
    (h : LaunchInv φ I jobs c) (hstep : c.apply a = some c') :
    LaunchInv φ I (jobs ++ a.job.toList) c' := by
  rcases Conf.apply_cases hstep with ⟨t, ch, o, k, r, s', rfl, hk, hex, rfl⟩ | ⟨t, hover, rfl⟩ |
    ⟨e, s', rfl, henv, rfl⟩ | ⟨j, p, s', rfl, hst, rfl⟩
  · obtain ⟨j, hj, hφ, hrest⟩ := h.task t _ hk
    simp only [Action.job, Option.toList_none, List.append_nil]
    refine ⟨h.next, hrule.call h.store hj hφ hex, ?_⟩
    intro u q hu
    rcases update_eq_some hu with ⟨rfl, hq⟩ | ⟨-, hu⟩
    · cases hq
      exact ⟨j, hj, hrest r⟩
    · exact h.task u q hu
  · have hjob : a.job = none := by
      rcases hover with rfl | ⟨ch, u, rfl, -⟩
      · rfl
      · rfl
    rw [hjob, Option.toList_none, List.append_nil]
    refine ⟨h.next, h.store, ?_⟩
    intro u q hu
    rcases update_eq_some hu with ⟨-, hq⟩ | ⟨-, hu⟩
    · cases hq
    · exact h.task u q hu
  · simp only [Action.job, Option.toList_none, List.append_nil]
    exact ⟨h.next, hrule.env h.store henv, h.task⟩
  · simp only [Action.job, Option.toList_some]
    rw [h.next] at hst ⊢
    refine ⟨by simp [Conf.setTask], hrule.start h.store hst, ?_⟩
    intro u q hu
    rcases update_eq_some hu with ⟨rfl, hq⟩ | ⟨-, hu⟩
    · cases hq
      exact ⟨j, by simp, hrule.uses hst⟩
    · obtain ⟨j', hj', hq⟩ := h.task u q hu
      obtain ⟨hlt, -⟩ := List.getElem?_eq_some_iff.mp hj'
      exact ⟨j', (List.getElem?_append_left hlt).trans hj', hq⟩

theorem LaunchInv.run (hrule : LaunchRule φ I) {c c' : Conf W} {as : List (Action W)}
    (h : LaunchInv φ I jobs c) (hrun : runFrom Conf.apply c as = some c') :
    LaunchInv φ I (jobs ++ launched as) c' := by
  induction as generalizing c jobs with
  | nil =>
      cases hrun
      rw [launched, List.filterMap_nil, List.append_nil]
      exact h
  | cons a as ih =>
      simp only [runFrom] at hrun
      split at hrun
      · next m hm =>
          rw [launched_cons, ← List.append_assoc]
          exact ih (h.step hrule hm) hrun
      · cases hrun

/-- In every state a run reaches, the invariant holds with the programs it started. -/
theorem LaunchRule.sound (hrule : LaunchRule φ I) {s₀ : W.Store} (hinit : I [] s₀)
    {as : List (Action W)} {c : Conf W} (hrun : runFrom Conf.apply (Conf.init s₀) as = some c) :
    I (launched as) c.store := by
  have hstart : LaunchInv φ I [] (Conf.init s₀) := by
    refine ⟨rfl, hinit, ?_⟩
    intro t p ht
    cases ht
  exact (hstart.run hrule hrun).store

end LogPipeline.Conc
