/-
  LogPipeline.Worker.Start

  `Worker.Start` and `HealthServer.Start` (`internal/worker/worker.go`,
  `internal/worker/server.go`): one group runs the three loops, the health server and
  the jobs the loops dispatch, and `Start` returns when all of them have.

  `Start` only reports an error while the context it looks at is not done.  That is the
  context of the group, which `Wait` has cancelled by then, so `Start` returns nil in
  every run (`start_returns_nil`) and a health server that cannot bind is not reported
  (`start_reports_iff`).
-/

import LogPipeline.Conc.Errgroup
import LogPipeline.Conc.Lts

namespace LogPipeline.Start

open Conc

-- ============================================================================
-- The source
-- ============================================================================

/-- The functions `Start` gives to its group. -/
inductive Component where
  | pollLoop
  | reclaimLoop
  | registryLoop
  | healthServer
deriving DecidableEq

/-- What `ListenAndServe` returns: it never returns nil. -/
inductive ServeError where
  | serverClosed
  | other (text : String)
deriving DecidableEq

/-- `HealthServer.Start`, after `ListenAndServe`; `none` is the nil error. -/
def healthServerStart : ServeError → Option String
  | .serverClosed => none
  | .other text => some ("health server failed: " ++ text)

/-- The end of `Start`: the error of `Wait`, and whether `ctx` is done after it. -/
def startResult (err : Option String) (ctxDone : Bool) : Option String :=
  if err.isSome && !ctxDone then err else none

/-- A component has returned. -/
structure Return where
  component : Component
  err : Option String
  /-- The caller's context was done. -/
  callerDone : Bool
deriving DecidableEq

/-- One call of `Start`. -/
structure State where
  group : Errgroup String
  /-- The components that have not returned. -/
  running : List Component
  /-- The jobs that have not returned. -/
  jobs : Nat
  /-- What the components returned, in order. -/
  returns : List Return
  /-- What `Start` returned. -/
  returned : Option (Option String)

/-- `Start` with its four components started. -/
def State.init : State where
  group := Errgroup.withContext.goAll 4
  running := [.pollLoop, .reclaimLoop, .registryLoop, .healthServer]
  jobs := 0
  returns := []
  returned := none

/-- A component returns. -/
def State.finish (s : State) (c : Component) (err : Option String) : State :=
  { s with
    group := s.group.finish err
    running := s.running.erase c
    returns := s.returns ++ [⟨c, err, s.group.parentDone⟩] }

inductive Action where
  /-- The caller's context is cancelled. -/
  | cancel
  /-- A loop sees that the group's context is done. -/
  | loopReturns (c : Component)
  | serveReturns (err : ServeError)
  /-- A loop dispatches a job. -/
  | goJob
  | jobReturns
  | wait
deriving DecidableEq

def step (s : State) : Action → Option State
  | .cancel => some { s with group := s.group.cancelParent }
  | .loopReturns c =>
      -- all three loops return nil, and only if the context is done
      if c ≠ .healthServer ∧ c ∈ s.running ∧ s.group.ctxDone = true then some (s.finish c none)
      else none
  | .serveReturns err =>
      -- the server is shut down when the context is done
      if .healthServer ∈ s.running ∧ (err = .serverClosed → s.group.ctxDone = true) then
        some (s.finish .healthServer (healthServerStart err))
      else none
  | .goJob =>
      if .pollLoop ∈ s.running ∨ .reclaimLoop ∈ s.running then
        some { s with group := s.group.go, jobs := s.jobs + 1 }
      else none
  | .jobReturns =>
      if 0 < s.jobs then some { s with group := s.group.finish none, jobs := s.jobs - 1 }
      else none
  | .wait =>
      match s.returned, s.group.wait with
      | none, some (err, group) =>
          some { s with group, returned := some (startResult err group.ctxDone) }
      | _, _ => none

-- ============================================================================
-- What a step does
-- ============================================================================

theorem startResult_of_done (err : Option String) : startResult err true = none := by
  unfold startResult
  rw [Bool.not_true, Bool.and_false]
  rfl

/-- A step that is not of a component, one of a loop, one of the health server, or the
    one with which `Start` returns. -/
theorem step_cases {s s' : State} {a : Action} (h : step s a = some s') :
    (s'.returns = s.returns ∧ s'.returned = s.returned ∧ ∀ err, a ≠ .serveReturns err) ∨
    (∃ c, a = .loopReturns c ∧ s' = s.finish c none) ∨
    (∃ err, a = .serveReturns err ∧ s' = s.finish .healthServer (healthServerStart err)) ∨
    (a = .wait ∧ s'.returns = s.returns ∧ s'.returned = some none) := by
  cases a with
  | cancel =>
      cases h
      exact Or.inl ⟨rfl, rfl, fun _ ha => by cases ha⟩
  | loopReturns c =>
      simp only [step, Option.ite_none_right_eq_some, Option.some.injEq] at h
      exact Or.inr (Or.inl ⟨c, rfl, h.2.symm⟩)
  | serveReturns err =>
      simp only [step, Option.ite_none_right_eq_some, Option.some.injEq] at h
      exact Or.inr (Or.inr (Or.inl ⟨err, rfl, h.2.symm⟩))
  | goJob =>
      simp only [step, Option.ite_none_right_eq_some, Option.some.injEq] at h
      obtain ⟨-, rfl⟩ := h
      exact Or.inl ⟨rfl, rfl, fun _ ha => by cases ha⟩
  | jobReturns =>
      simp only [step, Option.ite_none_right_eq_some, Option.some.injEq] at h
      obtain ⟨-, rfl⟩ := h
      exact Or.inl ⟨rfl, rfl, fun _ ha => by cases ha⟩
  | wait =>
      simp only [step] at h
      split at h
      · next err group _ hwait =>
          cases h
          -- the context that is looked at is the one `Wait` has cancelled
          have hnil : startResult err group.ctxDone = none := by
            rw [Errgroup.ctxDone_of_wait hwait, startResult_of_done]
          exact Or.inr (Or.inr (Or.inr ⟨rfl, rfl, congrArg some hnil⟩))
      · cases h

/-- The component failed while the caller's context was not done. -/
def Return.LiveFailure (r : Return) : Prop := r.err ≠ none ∧ r.callerDone = false

/-- The health server does not fail before the caller cancels. -/
def ServesUntilCancelled (s : State) (a : Action) : Prop :=
  ∀ text, a = .serveReturns (.other text) → s.group.parentDone = true

theorem forall_returns_finish {s : State} {c : Component} {err : Option String} :
    (∀ r ∈ (s.finish c err).returns, ¬ r.LiveFailure) ↔
      (∀ r ∈ s.returns, ¬ r.LiveFailure) ∧ (err ≠ none → s.group.parentDone = true) := by
  simp [State.finish, Return.LiveFailure, or_imp, forall_and]

/-- Only the health server fails. -/
theorem step_returns {s s' : State} {a : Action} (h : step s a = some s') :
    (∀ r ∈ s'.returns, ¬ r.LiveFailure) ↔
      (∀ r ∈ s.returns, ¬ r.LiveFailure) ∧ ServesUntilCancelled s a := by
  unfold ServesUntilCancelled
  rcases step_cases h with ⟨heq, -, ha⟩ | ⟨c, rfl, rfl⟩ | ⟨err, rfl, rfl⟩ | ⟨rfl, heq, -⟩
  · rw [heq, and_iff_left (fun text htext => absurd htext (ha _))]
  · rw [forall_returns_finish]
    simp
  · rw [forall_returns_finish]
    cases err with
    | serverClosed => simp [healthServerStart]
    | other text => simp [healthServerStart]
  · rw [heq]
    simp

-- ============================================================================
-- Whole runs
-- ============================================================================

/-- `Start` returns nil, if it returns. -/
theorem start_returns_nil {as : List Action} {s : State}
    (hrun : runFrom step State.init as = some s) {result : Option String}
    (hret : s.returned = some result) : result = none := by
  have hreach : Reaches step (fun _ _ => True) State.init s :=
    ⟨as, hrun, everyStep_of_forall (fun _ _ => trivial) _ _⟩
  have hinv : ∀ r, s.returned = some r → r = none := by
    refine hreach.invariant (I := fun s => ∀ r, s.returned = some r → r = none)
      (fun r hr => by cases hr) ?_
    intro x a y _ hx _ hxy r hr
    rcases step_cases hxy with ⟨-, heq, -⟩ | ⟨c, -, rfl⟩ | ⟨err, -, rfl⟩ | ⟨-, -, heq⟩
    · exact hx r (heq ▸ hr)
    · exact hx r hr
    · exact hx r hr
    · rw [heq] at hr
      cases hr
      rfl
  exact hinv result hret

/-- A run has a live failure exactly if the health server fails in it before the
    caller cancels. -/
theorem no_liveFailure_iff {as : List Action} {s s' : State}
    (hrun : runFrom step s as = some s') :
    (∀ r ∈ s'.returns, ¬ r.LiveFailure) ↔
      (∀ r ∈ s.returns, ¬ r.LiveFailure) ∧ EveryStep step ServesUntilCancelled s as := by
  induction as generalizing s with
  | nil =>
      cases hrun
      simp only [EveryStep, and_true]
  | cons a as ih =>
      rw [runFrom] at hrun
      cases hstep : step s a with
      | none =>
          rw [hstep] at hrun
          cases hrun
      | some s₁ =>
          rw [hstep] at hrun
          simp only [EveryStep, hstep]
          rw [ih hrun, step_returns hstep, and_assoc]

/-- A component that fails while the caller's context is not done makes `Start` fail;
    if all return nil, so does `Start`. -/
structure Reports (s : State) (result : Option String) : Prop where
  failure : (∃ r ∈ s.returns, r.LiveFailure) → result ≠ none
  success : (∀ r ∈ s.returns, r.err = none) → result = none

/-- `Start` reports failures exactly in the runs in which there is none to report: the
    health server serves until the caller cancels. -/
theorem start_reports_iff {as : List Action} {s : State}
    (hrun : runFrom step State.init as = some s) {result : Option String}
    (hret : s.returned = some result) :
    Reports s result ↔ EveryStep step ServesUntilCancelled State.init as := by
  have hnil := start_returns_nil hrun hret
  have hlive := no_liveFailure_iff hrun
  have hinit : ∀ r ∈ State.init.returns, ¬ r.LiveFailure := fun r hr => by cases hr
  rw [show EveryStep step ServesUntilCancelled State.init as ↔
    ∀ r ∈ s.returns, ¬ r.LiveFailure from by rw [hlive, and_iff_right hinit]]
  constructor
  · intro h r hr hfail
    exact h.failure ⟨r, hr, hfail⟩ hnil
  · intro h
    refine ⟨?_, fun _ => hnil⟩
    rintro ⟨r, hr, hfail⟩
    exact absurd hfail (h r hr)

/-- A worker that is cancelled with one job under way. -/
def cancelledRun : List Action :=
  [.goJob, .cancel, .loopReturns .pollLoop, .serveReturns .serverClosed,
    .loopReturns .registryLoop, .jobReturns, .loopReturns .reclaimLoop, .wait]

theorem start_reports_iff_cancelled :
    ∃ s, runFrom step State.init cancelledRun = some s ∧ Reports s none := by
  have hserves : EveryStep step ServesUntilCancelled State.init cancelledRun := by
    simp [cancelledRun, EveryStep, step, State.init, State.finish, ServesUntilCancelled,
      Errgroup.goAll, Errgroup.go, Errgroup.withContext, Errgroup.cancelParent,
      Errgroup.ctxDone, Errgroup.wait]
  refine ⟨_, rfl, ?_⟩
  exact (start_reports_iff rfl rfl).mpr hserves

/-- The health port is taken: the group is shut down and `Start` returns nil. -/
def portTakenRun : List Action :=
  [.serveReturns (.other "listen tcp :8081: bind: address already in use"),
    .loopReturns .pollLoop, .loopReturns .reclaimLoop, .loopReturns .registryLoop, .wait]

theorem failure_not_reported :
    ∃ s, runFrom step State.init portTakenRun = some s ∧ s.returned = some none ∧
      (⟨.healthServer,
        some "health server failed: listen tcp :8081: bind: address already in use", false⟩ :
        Return) ∈ s.returns := by
  refine ⟨_, rfl, rfl, ?_⟩
  decide

end LogPipeline.Start
