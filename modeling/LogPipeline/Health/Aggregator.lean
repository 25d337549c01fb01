/-
  LogPipeline.Health.Aggregator

  `internal/health/aggregator.go` and the readiness handler of `internal/health/http.go`.

  `CheckAll` runs one function for each checker in an `errgroup`; that function starts
  a goroutine for the check and waits for its result or for the context, whichever is
  seen first.  A step of the model is a step of one of these goroutines, of the clock or
  of the request.  A check that never returns is one whose step is never taken.

  `Slot.Ok` is what holds of one checker's goroutines at any time, `Slot.Live` what
  holds as long as the context is not done.
-/

import LogPipeline.Conc.Errgroup
import LogPipeline.Conc.Fair
import LogPipeline.Go.Time
import Mathlib.Algebra.GroupWithZero.Nat

namespace LogPipeline.Health

open Conc Go

-- ============================================================================
-- Results
-- ============================================================================

/-- `CheckResult`. -/
structure CheckResult where
  name : String
  healthy : Bool
  message : String
  duration : Duration
deriving DecidableEq

/-- An element of a new slice of results. -/
def CheckResult.zero : CheckResult := ⟨"", false, "", 0⟩

/-- `AggregatedHealth`. -/
structure AggregatedHealth where
  status : String
  checks : List CheckResult
  overall : Bool
deriving DecidableEq

/-- `checkOverallHealth`. -/
def checkOverallHealth : List CheckResult → Bool
  | [] => true
  | r :: rest => if r.healthy = false then false else checkOverallHealth rest

/-- The end of `CheckAll`. -/
def aggregate (results : List CheckResult) : AggregatedHealth :=
  let overallHealthy := checkOverallHealth results
  { status := if overallHealthy then "healthy" else "unhealthy"
    checks := results
    overall := overallHealthy }

/-- `HandleReady`: the status code and the body. -/
def handleReady (result : AggregatedHealth) : Nat × AggregatedHealth :=
  (if result.overall = false then 503 else 200, result)

/-- How a call of `Check` ends, with the text of the error or of the panic value. -/
inductive Outcome where
  | ok
  | error (text : String)
  | panicked (text : String)
deriving DecidableEq

/-- The message of a result. -/
def Outcome.message : Outcome → String
  | .ok => ""
  | .error text => text
  | .panicked text => "health check panicked: " ++ text

/-- The result the check's goroutine sends. -/
def Outcome.result (o : Outcome) (name : String) (duration : Duration) : CheckResult :=
  ⟨name, decide (o = .ok), o.message, duration⟩

/-- The result if the context is done first. -/
def timeoutResult (name : String) (duration : Duration) : CheckResult :=
  ⟨name, false, "health check timeout", duration⟩

-- ============================================================================
-- One checker
-- ============================================================================

/-- The goroutine `runCheckSafe` starts. -/
inductive Inner where
  /-- It is in `Check`, or before it. -/
  | checking
  /-- It is at the `select` that sends. -/
  | sending (r : CheckResult)
  /-- It has recovered and is at the send of the panic handler. -/
  | panicking (r : CheckResult)
  | exited
deriving DecidableEq

/-- The result the goroutine is about to send. -/
def Inner.held : Inner → Option CheckResult
  | .sending r => some r
  | .panicking r => some r
  | _ => none

/-- One call of `runCheckSafe`. -/
structure Slot where
  name : String
  /-- When it began, if it has. -/
  start : Option Instant
  inner : Inner
  /-- `resultChan`, which has room for one result. -/
  resultChan : Option CheckResult
  /-- How `Check` ended, if it has. -/
  outcome : Option Outcome
  /-- Its element of `results`, once it is written. -/
  result : Option CheckResult
deriving DecidableEq

/-- A call that has not begun. -/
def Slot.init (name : String) : Slot := ⟨name, none, .checking, none, none, none⟩

/-- `time.Since`, for a start that is not later. -/
def elapsed (start now : Instant) : Duration := Int64.ofNat (now.ns - start.ns)

inductive SlotAction where
  /-- `runCheckSafe` begins and starts its goroutine. -/
  | begin
  /-- `Check` ends. -/
  | check (o : Outcome)
  /-- The goroutine sends its result. -/
  | send
  /-- The goroutine sees that the context is done, and sends nothing. -/
  | drop
  /-- `runCheckSafe` returns the result it receives. -/
  | receive
  /-- `runCheckSafe` sees that the context is done. -/
  | timeout
deriving DecidableEq

/-- With this action `runCheckSafe` returns. -/
def SlotAction.returns : SlotAction → Bool
  | .receive => true
  | .timeout => true
  | _ => false

def Slot.step (ctxDone : Bool) (now : Instant) (s : Slot) : SlotAction → Option Slot
  | .begin =>
      match s.start with
      | none => some { s with start := some now }
      | some _ => none
  | .check o =>
      match s.start, s.inner with
      | some start, .checking =>
          let r := o.result s.name (elapsed start now)
          let inner := match o with
            | .panicked _ => Inner.panicking r
            | _ => Inner.sending r
          some { s with inner, outcome := some o }
      | _, _ => none
  | .send =>
      match s.inner.held, s.resultChan with
      | some r, none => some { s with inner := .exited, resultChan := some r }
      | _, _ => none
  | .drop =>
      match s.inner with
      | .sending _ => if ctxDone then some { s with inner := .exited } else none
      | _ => none
  | .receive =>
      match s.result, s.resultChan with
      | none, some r => some { s with result := some r, resultChan := none }
      | _, _ => none
  | .timeout =>
      match s.start, s.result with
      | some start, none =>
          if ctxDone then some { s with result := some (timeoutResult s.name (elapsed start now)) }
          else none
      | _, _ => none

/-- The result says how the checker's own check ended. -/
def Slot.Reports (s : Slot) (r : CheckResult) : Prop :=
  ∃ o, s.outcome = some o ∧ r = o.result s.name r.duration

/-- What holds of a checker's goroutines. -/
structure Slot.Ok (s : Slot) : Prop where
  idle : s.start = none → s.inner = .checking ∧ s.result = none
  checking : s.inner = .checking → s.outcome = none ∧ s.resultChan = none
  held : ∀ r, s.inner.held = some r → s.Reports r ∧ s.resultChan = none
  sent : ∀ r, s.resultChan = some r → s.Reports r ∧ s.inner = .exited
  result : ∀ r, s.result = some r → s.Reports r ∨ r = timeoutResult s.name r.duration

/-- What holds of them as long as the context is not done. -/
structure Slot.Live (s : Slot) : Prop where
  result : ∀ r, s.result = some r → s.Reports r ∧ s.inner = .exited
  exited : s.inner = .exited → s.result = none → s.resultChan ≠ none

namespace Slot

theorem ok_init (name : String) : (init name).Ok where
  idle _ := ⟨rfl, rfl⟩
  checking _ := ⟨rfl, rfl⟩
  held r hr := by cases hr
  sent r hr := by cases hr
  result r hr := by cases hr

theorem live_init (name : String) : (init name).Live where
  result r hr := by cases hr
  exited h := by cases h

variable {ctxDone : Bool} {now : Instant} {s s' : Slot} {a : SlotAction}

/-- What each action needs and does. -/
theorem step_cases (h : s.step ctxDone now a = some s') :
    (a = .begin ∧ s.start = none ∧ s' = { s with start := some now }) ∨
    (∃ o start inner, a = .check o ∧ s.start = some start ∧ s.inner = .checking ∧
      inner.held = some (o.result s.name (elapsed start now)) ∧
      s' = { s with inner, outcome := some o }) ∨
    (∃ r, a = .send ∧ s.inner.held = some r ∧ s.resultChan = none ∧
      s' = { s with inner := .exited, resultChan := some r }) ∨
    (∃ r, a = .drop ∧ s.inner = .sending r ∧ ctxDone = true ∧
      s' = { s with inner := .exited }) ∨
    (∃ r, a = .receive ∧ s.result = none ∧ s.resultChan = some r ∧
      s' = { s with result := some r, resultChan := none }) ∨
    (∃ start, a = .timeout ∧ s.start = some start ∧ s.result = none ∧ ctxDone = true ∧
      s' = { s with result := some (timeoutResult s.name (elapsed start now)) }) := by
  cases a with
  | begin =>
      simp only [step] at h
      split at h
      · next hstart =>
          cases h
          exact Or.inl ⟨rfl, hstart, rfl⟩
      · cases h
  | check o =>
      simp only [step] at h
      split at h
      · next start hstart hinner =>
          cases h
          refine Or.inr (Or.inl ⟨o, start, _, rfl, hstart, hinner, ?_, rfl⟩)
          cases o <;> rfl
      · cases h
  | send =>
      simp only [step] at h
      split at h
      · next r hheld hchan =>
          cases h
          exact Or.inr (Or.inr (Or.inl ⟨r, rfl, hheld, hchan, rfl⟩))
      · cases h
  | drop =>
      simp only [step] at h
      split at h
      · next r hinner =>
          split at h
          · next hdone =>
              cases h
              exact Or.inr (Or.inr (Or.inr (Or.inl ⟨r, rfl, hinner, hdone, rfl⟩)))
          · cases h
      · cases h
  | receive =>
      simp only [step] at h
      split at h
      · next r hresult hchan =>
          cases h
          exact Or.inr (Or.inr (Or.inr (Or.inr (Or.inl ⟨r, rfl, hresult, hchan, rfl⟩))))
      · cases h
  | timeout =>
      simp only [step] at h
      split at h
      · next start hstart hresult =>
          split at h
          · next hdone =>
              cases h
              exact Or.inr (Or.inr (Or.inr (Or.inr (Or.inr
                ⟨start, rfl, hstart, hresult, hdone, rfl⟩))))
          · cases h
      · cases h

theorem step_name (h : s.step ctxDone now a = some s') : s'.name = s.name := by
  rcases step_cases h with ⟨-, -, rfl⟩ | ⟨_, _, _, -, -, -, -, rfl⟩ | ⟨_, -, -, -, rfl⟩ |
    ⟨_, -, -, -, rfl⟩ | ⟨_, -, -, -, rfl⟩ | ⟨_, -, -, -, -, rfl⟩ <;> rfl

/-- A result is written by the actions with which `runCheckSafe` returns, once. -/
theorem step_result (h : s.step ctxDone now a = some s') :
    if a.returns = true then s.result = none ∧ s'.result ≠ none else s'.result = s.result := by
  rcases step_cases h with ⟨rfl, -, rfl⟩ | ⟨_, _, _, rfl, -, -, -, rfl⟩ | ⟨_, rfl, -, -, rfl⟩ |
    ⟨_, rfl, -, -, rfl⟩ | ⟨_, rfl, hnone, -, rfl⟩ | ⟨_, rfl, -, hnone, -, rfl⟩
  · rfl
  · rfl
  · rfl
  · rfl
  · exact ⟨hnone, Option.some_ne_none _⟩
  · exact ⟨hnone, Option.some_ne_none _⟩

theorem step_result_of_ne_none (h : s.step ctxDone now a = some s') (hne : s.result ≠ none) :
    s'.result = s.result := by
  have hresult := step_result h
  split at hresult
  · exact absurd hresult.1 hne
  · exact hresult

/-- `Check` ends once. -/
theorem Ok.step_outcome (hok : s.Ok) (h : s.step ctxDone now a = some s')
    (hne : s.outcome ≠ none) : s'.outcome = s.outcome := by
  rcases step_cases h with ⟨-, -, rfl⟩ | ⟨_, _, _, -, -, hchecking, -, rfl⟩ | ⟨_, -, -, -, rfl⟩ |
    ⟨_, -, -, -, rfl⟩ | ⟨_, -, -, -, rfl⟩ | ⟨_, -, -, -, -, rfl⟩
  · rfl
  · exact absurd (hok.checking hchecking).1 hne
  · rfl
  · rfl
  · rfl
  · rfl

theorem Ok.step (hok : s.Ok) (h : s.step ctxDone now a = some s') : s'.Ok := by
  rcases step_cases h with ⟨-, hstart, rfl⟩ | ⟨o, start, inner, -, hstart, hinner, hheld, rfl⟩ |
    ⟨r, -, hheld, hchan, rfl⟩ | ⟨r, -, hinner, -, rfl⟩ | ⟨r, -, hresult, hchan, rfl⟩ |
    ⟨start, -, hstart, hresult, -, rfl⟩
  · exact { hok with idle := fun hnone => by cases hnone }
  · obtain ⟨hnone, hempty⟩ := hok.checking hinner
    have hreports : ∀ r, ¬ s.Reports r := by
      rintro r ⟨o', ho', -⟩
      rw [hnone] at ho'
      cases ho'
    constructor
    · intro hidle
      rw [hstart] at hidle
      cases hidle
    · rintro rfl
      cases hheld
    · intro r hr
      rw [hheld] at hr
      cases hr
      exact ⟨⟨o, rfl, rfl⟩, hempty⟩
    · intro r hr
      rw [hempty] at hr
      cases hr
    · -- a result that is already there is that of a timeout
      intro r hr
      exact Or.inr ((hok.result r hr).resolve_left (hreports r))
  · constructor
    · intro hidle
      rw [(hok.idle hidle).1] at hheld
      cases hheld
    · intro hchecking
      cases hchecking
    · intro r' hr'
      cases hr'
    · intro r' hr'
      cases hr'
      exact ⟨(hok.held r hheld).1, rfl⟩
    · exact hok.result
  · have hheld : s.inner.held = some r := by rw [hinner]; rfl
    constructor
    · intro hidle
      rw [(hok.idle hidle).1] at hinner
      cases hinner
    · intro hchecking
      cases hchecking
    · intro r' hr'
      cases hr'
    · intro r' hr'
      rw [(hok.held r hheld).2] at hr'
      cases hr'
    · exact hok.result
  · obtain ⟨hreports, hexited⟩ := hok.sent r hchan
    constructor
    · intro hidle
      rw [(hok.idle hidle).1] at hexited
      cases hexited
    · intro hchecking
      rw [hexited] at hchecking
      cases hchecking
    · intro r' hr'
      rw [hexited] at hr'
      cases hr'
    · intro r' hr'
      cases hr'
    · intro r' hr'
      cases hr'
      exact Or.inl hreports
  · constructor
    · intro hidle
      rw [hstart] at hidle
      cases hidle
    · exact hok.checking
    · exact hok.held
    · exact hok.sent
    · intro r' hr'
      cases hr'
      exact Or.inr rfl

/-- As long as the context is not done, or is only done because the result is in, no
    result is lost. -/
theorem Live.step (hlive : s.Live) (hok : s.Ok) (h : s.step ctxDone now a = some s')
    (hdone : ctxDone = true → s.result ≠ none) : s'.Live := by
  rcases step_cases h with ⟨-, -, rfl⟩ | ⟨o, start, inner, -, -, hinner, hheld, rfl⟩ |
    ⟨r, -, hheld, -, rfl⟩ | ⟨r, -, hinner, htrue, rfl⟩ | ⟨r, -, -, hchan, rfl⟩ |
    ⟨start, -, -, hresult, htrue, rfl⟩
  · exact ⟨hlive.result, hlive.exited⟩
  · constructor
    · intro r hr
      have hexited := (hlive.result r hr).2
      rw [hinner] at hexited
      cases hexited
    · rintro rfl
      cases hheld
  · constructor
    · intro r' hr'
      exact ⟨(hlive.result r' hr').1, rfl⟩
    · intro _ _
      exact Option.some_ne_none r
  · -- the goroutine has not sent, so there is no result yet
    obtain ⟨r', hr'⟩ := Option.ne_none_iff_exists'.mp (hdone htrue)
    have hexited := (hlive.result r' hr').2
    rw [hinner] at hexited
    cases hexited
  · obtain ⟨hreports, hexited⟩ := hok.sent r hchan
    constructor
    · intro r' hr'
      cases hr'
      exact ⟨hreports, hexited⟩
    · intro _ hnone
      cases hnone
  · exact absurd hresult (hdone htrue)

/-- The steps a checker's goroutines may still take. -/
def rank (s : Slot) : Nat :=
  (if s.start = none then 1 else 0) +
  (match s.inner with
    | .checking => 2
    | .sending _ => 1
    | .panicking _ => 1
    | .exited => 0) +
  (if s.result = none then 1 else 0)

theorem rank_step (h : s.step ctxDone now a = some s') : s'.rank < s.rank := by
  have hone {i : Inner} {r : CheckResult} (hi : i.held = some r) :
      (match i with
        | .checking => 2
        | .sending _ => 1
        | .panicking _ => 1
        | .exited => 0) = 1 := by
    cases i with
    | sending _ => rfl
    | panicking _ => rfl
    | checking => cases hi
    | exited => cases hi
  rcases step_cases h with ⟨-, hstart, rfl⟩ | ⟨o, start, inner, -, -, hinner, hheld, rfl⟩ |
    ⟨r, -, hheld, -, rfl⟩ | ⟨r, -, hinner, -, rfl⟩ | ⟨r, -, hresult, -, rfl⟩ |
    ⟨start, -, -, hresult, -, rfl⟩
  · simp [rank, hstart]
  · simp [rank, hinner, hone hheld]
  · simp [rank, hone hheld]
  · simp [rank, hinner]
  · simp [rank, hresult]
  · simp [rank, hresult]

variable (now) in
/-- Until its result is in, `runCheckSafe` or its goroutine can go on, if the context is
    done or `Check` has ended. -/
theorem exists_step (hok : s.Ok) (hlive : ctxDone = false → s.Live) (hresult : s.result = none)
    (hsettled : ctxDone = true ∨ s.outcome ≠ none) :
    ∃ a, (∀ o, a ≠ .check o) ∧ (s.step ctxDone now a).isSome := by
  cases hstart : s.start with
  | none => exact ⟨.begin, (fun _ h => by cases h), by simp [Slot.step, hstart]⟩
  | some start =>
      cases hdone : ctxDone with
      | true =>
          exact ⟨.timeout, (fun _ h => by cases h), by simp [Slot.step, hstart, hresult]⟩
      | false =>
          have houtcome : s.outcome ≠ none := hsettled.resolve_left (by simp [hdone])
          cases hheld : s.inner.held with
          | some r =>
              have hchan := (hok.held r hheld).2
              exact ⟨.send, (fun _ h => by cases h), by simp [Slot.step, hheld, hchan]⟩
          | none =>
              -- `Check` has ended and nothing is left to send: the result is in the channel
              have hexited : s.inner = .exited := by
                cases hinner : s.inner with
                | exited => rfl
                | checking => exact absurd (hok.checking hinner).1 houtcome
                | sending r => rw [hinner] at hheld; cases hheld
                | panicking r => rw [hinner] at hheld; cases hheld
              have hfull := (hlive hdone).exited hexited hresult
              obtain ⟨r, hr⟩ := Option.ne_none_iff_exists'.mp hfull
              exact ⟨.receive, (fun _ h => by cases h), by simp [Slot.step, hresult, hr]⟩

end Slot

-- ============================================================================
-- CheckAll
-- ============================================================================

/-- One call of `CheckAll`. -/
structure CheckAll where
  now : Instant
  group : Errgroup String
  /-- In the order the checkers were registered. -/
  slots : List Slot
  /-- What `CheckAll` returned. -/
  returned : Option AggregatedHealth

inductive Action where
  /-- Time passes. -/
  | tick (later : Instant)
  /-- The timeout of the aggregator is over. -/
  | deadline
  /-- The context of the request is cancelled. -/
  | cancel
  /-- One of the goroutines of a checker takes a step. -/
  | slot (i : Nat) (a : SlotAction)
  | wait
deriving DecidableEq

namespace CheckAll

/-- `CheckAll`, with a function started for each registered checker. -/
def init (names : List String) (now : Instant) : CheckAll where
  now := now
  group := Errgroup.withContext.goAll names.length
  slots := names.map Slot.init
  returned := none

/-- `results`. -/
def results (s : CheckAll) : List CheckResult :=
  s.slots.map fun x => x.result.getD CheckResult.zero

def step (s : CheckAll) : Action → Option CheckAll
  | .tick later => if s.now.ns ≤ later.ns then some { s with now := later } else none
  | .deadline => some { s with group := s.group.cancelParent }
  | .cancel => some { s with group := s.group.cancelParent }
  | .slot i a =>
      match s.slots[i]? with
      | none => none
      | some x =>
          match x.step s.group.ctxDone s.now a with
          | none => none
          | some x' =>
              -- the function given to the group returns nil, whatever the result
              some { s with
                slots := s.slots.set i x'
                group := if a.returns then s.group.finish none else s.group }
  | .wait =>
      match s.returned, s.group.wait with
      | none, some (_, group) => some { s with group, returned := some (aggregate s.results) }
      | _, _ => none

/-- Time or the request moves on, a checker's goroutine takes a step, or `CheckAll`
    returns. -/
theorem step_cases {s s' : CheckAll} {a : Action} (h : s.step a = some s') :
    (∃ now' done, s' = { s with
      now := now', group := { s.group with parentDone := s.group.parentDone || done } } ∧
      ∀ i b, a ≠ .slot i b ∧ a ≠ .wait) ∨
    (∃ i b x x', a = .slot i b ∧ s.slots[i]? = some x ∧
      x.step s.group.ctxDone s.now b = some x' ∧
      s' = { s with
        slots := s.slots.set i x'
        group := { s.group with
          running := if b.returns then s.group.running - 1 else s.group.running } }) ∨
    (a = .wait ∧ s.returned = none ∧ s.group.running = 0 ∧
      s' = { s with
        group := { s.group with cancelled := true }
        returned := some (aggregate s.results) }) := by
  cases a with
  | tick later =>
      simp only [step, Option.ite_none_right_eq_some, Option.some.injEq] at h
      obtain ⟨-, rfl⟩ := h
      exact Or.inl ⟨later, false, by simp, fun _ _ => ⟨nofun, nofun⟩⟩
  | deadline =>
      cases h
      exact Or.inl ⟨s.now, true, by simp [Errgroup.cancelParent], fun _ _ => ⟨nofun, nofun⟩⟩
  | cancel =>
      cases h
      exact Or.inl ⟨s.now, true, by simp [Errgroup.cancelParent], fun _ _ => ⟨nofun, nofun⟩⟩
  | slot i b =>
      simp only [step] at h
      split at h
      · cases h
      · next x hx =>
          split at h
          · cases h
          · next x' hx' =>
              cases h
              refine Or.inr (Or.inl ⟨i, b, x, x', rfl, hx, hx', ?_⟩)
              cases b.returns <;> simp
  | wait =>
      simp only [step] at h
      split at h
      · next err group hnone hwait =>
          obtain ⟨hzero, -, rfl⟩ := Errgroup.wait_eq_some hwait
          cases h
          exact Or.inr (Or.inr ⟨rfl, hnone, hzero, rfl⟩)
      · cases h

/-- What holds in every state of a call of `CheckAll`. -/
structure Inv (names : List String) (s : CheckAll) : Prop where
  names : s.slots.map (·.name) = names
  ok : ∀ x ∈ s.slots, x.Ok
  live : s.group.parentDone = false → ∀ x ∈ s.slots, x.Live
  running : s.group.running = s.slots.countP (fun x => x.result = none)
  cancelled : s.group.cancelled = true → s.returned ≠ none
  returned : ∀ h, s.returned = some h →
    (∀ x ∈ s.slots, x.result ≠ none) ∧ h = aggregate s.results

theorem inv_init (names : List String) (now : Instant) : (init names now).Inv names where
  names := by
    unfold init
    rw [List.map_map]
    exact List.map_id _
  ok x hx := by
    obtain ⟨name, -, rfl⟩ := List.mem_map.mp hx
    exact Slot.ok_init name
  live _ x hx := by
    obtain ⟨name, -, rfl⟩ := List.mem_map.mp hx
    exact Slot.live_init name
  running := by
    unfold init
    rw [Errgroup.goAll_eq, List.countP_map, List.countP_eq_length.mpr]
    · exact Nat.zero_add _
    · intro name _
      rfl
  cancelled h := by
    rw [init, Errgroup.goAll_eq] at h
    cases h
  returned h hh := by cases hh

/-- Nothing runs exactly if every result is in. -/
theorem Inv.running_eq_zero {names : List String} {s : CheckAll} (hinv : s.Inv names) :
    s.group.running = 0 ↔ ∀ x ∈ s.slots, x.result ≠ none := by
  rw [hinv.running, List.countP_eq_zero]
  simp only [decide_eq_true_eq, ne_eq]

/-- What a step of one checker keeps for that checker, it keeps for the list. -/
theorem map_set_eq {β : Type} {f : Slot → β} {l : List Slot} {i : Nat} {x x' : Slot}
    (hx : l[i]? = some x) (hf : f x' = f x) : (l.set i x').map f = l.map f := by
  obtain ⟨hlt, rfl⟩ := List.getElem?_eq_some_iff.mp hx
  rw [List.map_set, hf]
  apply List.ext_getElem
  · simp
  · intro j _ _
    rw [List.getElem_set]
    split
    · next h =>
        subst h
        rw [List.getElem_map]
    · rfl

theorem Inv.slot {names : List String} {s : CheckAll} (hinv : s.Inv names) {i : Nat}
    {b : SlotAction} {x x' : Slot} (hx : s.slots[i]? = some x)
    (h : x.step s.group.ctxDone s.now b = some x') :
    Inv names { s with
      slots := s.slots.set i x'
      group := { s.group with
        running := if b.returns then s.group.running - 1 else s.group.running } } := by
  have hmem := List.mem_of_getElem? hx
  obtain ⟨hlt, hget⟩ := List.getElem?_eq_some_iff.mp hx
  have hresult := Slot.step_result h
  -- once `CheckAll` has returned, the results stay as they are
  have hdone : s.returned ≠ none → x.result ≠ none := by
    intro hne
    obtain ⟨r, hr⟩ := Option.ne_none_iff_exists'.mp hne
    exact (hinv.returned r hr).1 x hmem
  constructor
  · show (s.slots.set i x').map (·.name) = names
    rw [map_set_eq hx (Slot.step_name h), hinv.names]
  · intro y hy
    rcases List.mem_or_eq_of_mem_set hy with hy | rfl
    · exact hinv.ok y hy
    · exact (hinv.ok x hmem).step h
  · intro hparent y hy
    have hparent : s.group.parentDone = false := hparent
    rcases List.mem_or_eq_of_mem_set hy with hy | rfl
    · exact hinv.live hparent y hy
    · refine (hinv.live hparent x hmem).step (hinv.ok x hmem) h fun htrue => ?_
      rw [Errgroup.ctxDone, hparent, Bool.false_or] at htrue
      exact hdone (hinv.cancelled htrue)
  · show (if b.returns then s.group.running - 1 else s.group.running) =
      (s.slots.set i x').countP (fun x => x.result = none)
    rw [List.countP_set hlt, hget, hinv.running]
    split at hresult
    · next hb => simp [hb, hresult.1, hresult.2]
    · next hb =>
        have hpos : x.result = none → 0 < s.slots.countP (fun x => x.result = none) :=
          fun hnone => List.countP_pos_iff.mpr ⟨x, hmem, by simpa using hnone⟩
        rw [if_neg hb, hresult]
        by_cases hnone : x.result = none
        · have := hpos hnone
          simp [hnone]
          omega
        · simp [hnone]
  · exact hinv.cancelled
  · intro r hr
    have hr : s.returned = some r := hr
    obtain ⟨hall, hagg⟩ := hinv.returned r hr
    have hsame := Slot.step_result_of_ne_none h (hall x hmem)
    constructor
    · intro y hy
      rcases List.mem_or_eq_of_mem_set hy with hy | rfl
      · exact hall y hy
      · rw [hsame]
        exact hall x hmem
    · rw [hagg]
      unfold results
      rw [map_set_eq hx (by rw [hsame])]

theorem Inv.step {names : List String} {s s' : CheckAll} {a : Action} (hinv : s.Inv names)
    (h : s.step a = some s') : s'.Inv names := by
  rcases step_cases h with ⟨now', done, rfl, -⟩ | ⟨i, b, x, x', -, hx, hx', rfl⟩ |
    ⟨-, hnone, hzero, rfl⟩
  · refine { hinv with live := ?_ }
    intro hparent
    exact hinv.live (Bool.or_eq_false_iff.mp hparent).1
  · exact hinv.slot hx hx'
  · refine { hinv with cancelled := fun _ => Option.some_ne_none _, returned := ?_ }
    intro r hr
    cases hr
    exact ⟨hinv.running_eq_zero.mp hzero, rfl⟩

-- ============================================================================
-- CheckAll returns
-- ============================================================================

/-- The steps of the goroutines of `CheckAll` that do not wait for a check. -/
def Internal : Action → Prop
  | .slot _ (.check _) => False
  | .slot _ _ => True
  | .wait => True
  | _ => False

/-- The context is done, or every check has ended. -/
def Settled (s : CheckAll) : Prop :=
  s.group.ctxDone = true ∨ ∀ x ∈ s.slots, x.outcome ≠ none

/-- The steps the goroutines of the call may still take. -/
def rank (s : CheckAll) : Nat :=
  (s.slots.map Slot.rank).sum + if s.returned = none then 1 else 0

theorem sum_rank_set {l : List Slot} {i : Nat} {x x' : Slot} (hx : l[i]? = some x)
    (hlt : x'.rank < x.rank) : ((l.set i x').map Slot.rank).sum < (l.map Slot.rank).sum := by
  induction l generalizing i with
  | nil => cases hx
  | cons y l ih =>
      cases i with
      | zero =>
          obtain rfl : y = x := by simpa using hx
          simp only [List.set_cons_zero, List.map_cons, List.sum_cons]
          omega
      | succ i =>
          have := ih (i := i) (by simpa using hx)
          simp only [List.set_cons_succ, List.map_cons, List.sum_cons]
          omega

/-- A step of the goroutines uses up rank, any other leaves it alone. -/
theorem rank_step {s s' : CheckAll} {a : Action} (h : s.step a = some s') :
    s'.rank ≤ s.rank ∧ (Internal a → s'.rank < s.rank) := by
  rcases step_cases h with ⟨now', done, rfl, ha⟩ | ⟨i, b, x, x', -, hx, hx', rfl⟩ |
    ⟨-, hnone, -, rfl⟩
  · refine ⟨Nat.le_refl _, fun hint => ?_⟩
    cases a with
    | slot i b => exact absurd rfl (ha i b).1
    | wait => exact absurd rfl (ha 0 .begin).2
    | tick _ => exact absurd hint id
    | deadline => exact absurd hint id
    | cancel => exact absurd hint id
  · have hlt := sum_rank_set hx (Slot.rank_step hx')
    unfold rank
    dsimp only
    omega
  · unfold rank
    simp only [hnone, if_true]
    simp

theorem Settled.step {names : List String} {s s' : CheckAll} {a : Action} (hs : s.Settled)
    (hinv : s.Inv names) (h : s.step a = some s') : s'.Settled := by
  rcases step_cases h with ⟨now', done, rfl, -⟩ | ⟨i, b, x, x', -, hx, hx', rfl⟩ | ⟨-, -, -, rfl⟩
  · refine hs.imp_left fun hdone => ?_
    unfold Errgroup.ctxDone at hdone ⊢
    grind
  · refine hs.imp_right fun hall y hy => ?_
    have hmem := List.mem_of_getElem? hx
    rcases List.mem_or_eq_of_mem_set hy with hy | rfl
    · exact hall y hy
    · rw [(hinv.ok x hmem).step_outcome hx' (hall x hmem)]
      exact hall x hmem
  · left
    unfold Errgroup.ctxDone
    rw [Bool.or_true]

/-- Until it returns, some goroutine of a settled call can go on. -/
theorem Settled.canStep {names : List String} {s : CheckAll} (hs : s.Settled)
    (hinv : s.Inv names) (hret : s.returned = none) : CanStep CheckAll.step Internal s := by
  by_cases hall : ∀ x ∈ s.slots, x.result ≠ none
  · have hzero := hinv.running_eq_zero.mpr hall
    refine ⟨.wait, { s with
      group := { s.group with cancelled := true }
      returned := some (aggregate s.results) }, trivial, ?_⟩
    simp only [CheckAll.step, hret, Errgroup.wait, hzero, if_true]
  · push Not at hall
    obtain ⟨x, hmem, hresult⟩ := hall
    obtain ⟨i, hlt, hget⟩ := List.getElem_of_mem hmem
    have hx : s.slots[i]? = some x := List.getElem?_eq_some_iff.mpr ⟨hlt, hget⟩
    have hlive : s.group.ctxDone = false → x.Live := fun hdone =>
      hinv.live (Bool.or_eq_false_iff.mp hdone).1 x hmem
    obtain ⟨b, hb, hsome⟩ := Slot.exists_step s.now (hinv.ok x hmem) hlive hresult
      (hs.imp_right fun houtcome => houtcome x hmem)
    obtain ⟨x', hx'⟩ := Option.isSome_iff_exists.mp hsome
    refine ⟨.slot i b, _, ?_, by simp only [CheckAll.step, hx, hx']; rfl⟩
    cases b with
    | check o => exact absurd rfl (hb o)
    | begin => trivial
    | send => trivial
    | drop => trivial
    | receive => trivial
    | timeout => trivial

/-- A settled call returns, however its goroutines are scheduled. -/
theorem returns_of_settled {names : List String} (ρ : FairRun step Internal)
    (hinv : (ρ.state 0).Inv names) {n : Nat} (hs : (ρ.state n).Settled) :
    ∃ m ≥ n, (ρ.state m).returned ≠ none := by
  have hn : (ρ.state n).Inv names := ρ.keeps (fun _ _ _ hi h => hi.step h) hinv (Nat.zero_le n)
  refine ρ.leads_to (P := fun s => s.Inv names ∧ s.Settled) (Q := fun s => s.returned ≠ none)
    rank ?_ ?_ ?_ ?_ ⟨hn, hs⟩
  · exact fun s a s' hP h => ⟨hP.1.step h, hP.2.step hP.1 h⟩
  · exact fun s a s' _ h => (rank_step h).1
  · exact fun s a s' _ hint h => (rank_step h).2 hint
  · exact fun s hP hQ => hP.2.canStep hP.1 (not_not.mp hQ)

-- ============================================================================
-- Soundness
-- ============================================================================

theorem checkOverallHealth_eq_true {l : List CheckResult} :
    checkOverallHealth l = true ↔ ∀ r ∈ l, r.healthy = true := by
  induction l with
  | nil => simp [checkOverallHealth]
  | cons r l ih =>
      rw [checkOverallHealth, List.forall_mem_cons, ← ih]
      cases r.healthy <;> simp

/-- What a call of `CheckAll` with these checkers may have returned, and what it may
    have written so far. -/
structure Sound (names : List String) (s : CheckAll) : Prop where
  /-- One result for each checker, in the order of registration. -/
  names : ∀ h, s.returned = some h → h.checks.map (·.name) = names
  /-- A healthy result is that of a check that returned nil. -/
  healthy : ∀ h, s.returned = some h → ∀ (i : Nat) (r : CheckResult),
    h.checks[i]? = some r → r.healthy = true →
    ∃ x : Slot, s.slots[i]? = some x ∧ x.outcome = some .ok
  overall : ∀ h, s.returned = some h →
    (h.overall = true ↔ ∀ r ∈ h.checks, r.healthy = true)
  ready : ∀ h, s.returned = some h →
    ((handleReady h).1 = 200 ↔ ∀ r ∈ h.checks, r.healthy = true)
  /-- What is reported for a checker is what its own function has written. -/
  reported : ∀ h, s.returned = some h → ∀ (i : Nat) (r : CheckResult),
    h.checks[i]? = some r → ∃ x : Slot, s.slots[i]? = some x ∧ x.result = some r
  /-- Before the context is done a result only says how the checker's own check ended. -/
  written : s.group.parentDone = false → ∀ (i : Nat) (x : Slot) (r : CheckResult),
    s.slots[i]? = some x → x.result = some r →
    ∃ o, x.outcome = some o ∧ (r.healthy = true ↔ o = .ok) ∧ r.message = o.message
  /-- So does what is reported, whatever the other checks have returned. -/
  isolated : s.group.parentDone = false → ∀ h, s.returned = some h →
    ∀ (i : Nat) (r : CheckResult), h.checks[i]? = some r →
    ∃ (x : Slot) (o : Outcome), s.slots[i]? = some x ∧ x.outcome = some o ∧
      (r.healthy = true ↔ o = .ok) ∧ r.message = o.message
  /-- The checks' context is not done before the deadline while `CheckAll` runs, whatever
      the other checks have returned. -/
  undisturbed : s.group.parentDone = false → s.returned = none → s.group.ctxDone = false

/-- The results of a finished call, one by one. -/
theorem Inv.getElem_results {names : List String} {s : CheckAll} (hinv : s.Inv names)
    {h : AggregatedHealth} (hret : s.returned = some h) {i : Nat} {r : CheckResult}
    (hr : h.checks[i]? = some r) : ∃ x, s.slots[i]? = some x ∧ x.result = some r := by
  obtain ⟨hall, rfl⟩ := hinv.returned h hret
  have hr : (s.slots.map fun x => x.result.getD CheckResult.zero)[i]? = some r := hr
  rw [List.getElem?_map, Option.map_eq_some_iff] at hr
  obtain ⟨x, hx, hget⟩ := hr
  obtain ⟨r', hr'⟩ := Option.ne_none_iff_exists'.mp (hall x (List.mem_of_getElem? hx))
  rw [hr', Option.getD_some] at hget
  exact ⟨x, hx, hget ▸ hr'⟩

/-- Before the context is done a function has written how its own check ended. -/
theorem Inv.outcome_of_result {names : List String} {s : CheckAll} (hinv : s.Inv names)
    (hparent : s.group.parentDone = false) {i : Nat} {x : Slot} {r : CheckResult}
    (hx : s.slots[i]? = some x) (hresult : x.result = some r) :
    ∃ o, x.outcome = some o ∧ (r.healthy = true ↔ o = .ok) ∧ r.message = o.message := by
  obtain ⟨⟨o, ho, heq⟩, -⟩ := (hinv.live hparent x (List.mem_of_getElem? hx)).result r hresult
  refine ⟨o, ho, ?_, ?_⟩
  · rw [heq]
    exact decide_eq_true_iff
  · rw [heq]
    rfl

theorem Inv.sound {names : List String} {s : CheckAll} (hinv : s.Inv names) : s.Sound names := by
  have hoverall (h : AggregatedHealth) (hret : s.returned = some h) :
      h.overall = true ↔ ∀ r ∈ h.checks, r.healthy = true := by
    obtain ⟨-, rfl⟩ := hinv.returned h hret
    exact checkOverallHealth_eq_true
  constructor
  · intro h hret
    obtain ⟨hall, rfl⟩ := hinv.returned h hret
    rw [← hinv.names]
    show (s.slots.map fun x => x.result.getD CheckResult.zero).map (·.name) = _
    rw [List.map_map]
    refine List.map_congr_left fun x hx => ?_
    obtain ⟨r, hr⟩ := Option.ne_none_iff_exists'.mp (hall x hx)
    show (x.result.getD CheckResult.zero).name = x.name
    rw [hr, Option.getD_some]
    rcases (hinv.ok x hx).result r hr with ⟨o, -, heq⟩ | heq
    · rw [heq]; rfl
    · rw [heq]; rfl
  · intro h hret i r hr hhealthy
    obtain ⟨x, hx, hresult⟩ := hinv.getElem_results hret hr
    refine ⟨x, hx, ?_⟩
    rcases (hinv.ok x (List.mem_of_getElem? hx)).result r hresult with ⟨o, ho, heq⟩ | heq
    · rw [heq] at hhealthy
      rw [ho, of_decide_eq_true hhealthy]
    · rw [heq] at hhealthy
      cases hhealthy
  · exact hoverall
  · intro h hret
    rw [← hoverall h hret, handleReady]
    cases h.overall <;> simp
  · exact fun h hret i r hr => hinv.getElem_results hret hr
  · exact fun hparent i x r hx hresult => hinv.outcome_of_result hparent hx hresult
  · intro hparent h hret i r hr
    obtain ⟨x, hx, hresult⟩ := hinv.getElem_results hret hr
    obtain ⟨o, ho, hhealthy, hmessage⟩ := hinv.outcome_of_result hparent hx hresult
    exact ⟨x, o, hx, ho, hhealthy, hmessage⟩
  · intro hparent hret
    unfold Errgroup.ctxDone
    rw [hparent, Bool.false_or]
    cases hc : s.group.cancelled with
    | false => rfl
    | true => exact absurd hret (hinv.cancelled hc)

/-- For any checkers and any schedule of the goroutines, the timeout and the request, every
    state of the call is sound; and once the context is done or every check has ended, a
    call whose goroutines are not starved returns. -/
theorem checkAll_sound (names : List String) (now : Instant) :
    (∀ as s, runFrom step (init names now) as = some s → s.Sound names) ∧
    (∀ ρ : FairRun step Internal, ρ.state 0 = init names now →
      ∀ n, (ρ.state n).Settled → ∃ m ≥ n, (ρ.state m).returned ≠ none) := by
  have hinit := inv_init names now
  constructor
  · intro as s hrun
    have hreach : Reaches step (fun _ _ => True) (init names now) s :=
      ⟨as, hrun, everyStep_of_forall (fun _ _ => trivial) _ _⟩
    exact (hreach.invariant (I := fun s : CheckAll => s.Inv names) hinit
      fun x a y _ hx _ hxy => hx.step hxy).sound
  · intro ρ hzero n hs
    exact returns_of_settled ρ (hzero ▸ hinit) hs

/-- One check returns nil and the other panics, before the deadline. -/
def panicRun : List Action :=
  [.slot 1 .begin, .slot 0 .begin, .slot 1 (.check (.panicked "nil pointer")), .slot 1 .send,
    .slot 1 .receive, .slot 0 (.check .ok), .slot 0 .send, .slot 0 .receive, .wait]

/-- Where that run ends. -/
def panicEnd : CheckAll where
  now := Instant.epoch
  group := ⟨false, true, 0, none⟩
  slots :=
    [⟨"redis", some Instant.epoch, .exited, none, some .ok, some ⟨"redis", true, "", 0⟩⟩,
     ⟨"postgres", some Instant.epoch, .exited, none, some (.panicked "nil pointer"),
      some ⟨"postgres", false, "health check panicked: nil pointer", 0⟩⟩]
  returned := some ⟨"unhealthy",
    [⟨"redis", true, "", 0⟩, ⟨"postgres", false, "health check panicked: nil pointer", 0⟩], false⟩

theorem checkAll_sound_panic :
    panicEnd.Sound ["redis", "postgres"] ∧
    ∃ ρ : FairRun step Internal, ρ.state 0 = init ["redis", "postgres"] Instant.epoch ∧
      (ρ.state 9).Settled ∧ ∃ m ≥ 9, (ρ.state m).returned ≠ none := by
  have hrun : runFrom step (init ["redis", "postgres"] Instant.epoch) panicRun = some panicEnd :=
    rfl
  have hstuck : ¬ CanStep step Internal panicEnd := by
    rintro ⟨a, s', hint, h⟩
    have hlt := (rank_step h).2 hint
    exact absurd hlt (by rw [show panicEnd.rank = 0 from rfl]; omega)
  have hsettled : ((FairRun.ofRun hrun hstuck).state 9).Settled := Or.inl rfl
  have hsound := checkAll_sound ["redis", "postgres"] Instant.epoch
  exact ⟨hsound.1 panicRun panicEnd hrun, FairRun.ofRun hrun hstuck, FairRun.ofRun_zero _ _,
    hsettled, hsound.2 (FairRun.ofRun hrun hstuck) (FairRun.ofRun_zero _ _) 9 hsettled⟩

end CheckAll

end LogPipeline.Health
