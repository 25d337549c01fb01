/-
  LogPipeline.Registry.Reconcile

  `reconcile` and `IsAlive` of `internal/registry`: the control plane looks for dead
  workers.

  A round of `reconcile` lists the workers and then goes through what it was given: it reads
  the clock for each of them, and once more for the alert if it finds the worker dead.  The
  system is that of `Registry.Workers` with a round around each call of `ListWorkers`
  (`round_cases`: the rounds make the calls of `reconcile`).  Any number of rounds run at the
  same time as the calls of the workers.  All hosts read one clock.

  - `reports_exact`: in every run, a report names a worker that has not been heard of for
    the threshold when the round began, and names nobody whose record was younger than that
    when it was looked at.
  - `heartbeat_prevents_alert`: a round judges a worker by a record that it read earlier
    and that has whole seconds.  A worker is safe from false alarms if the threshold covers
    its heartbeats, the length of a round and one second.
-/

import LogPipeline.Registry.Workers

namespace LogPipeline.Registry.Workers

open Conc Go

-- ============================================================================
-- The source
-- ============================================================================

/-- `IsAlive`, at a reading of the clock. -/
def WorkerInfo.isAlive (w : WorkerInfo) (threshold : Duration) (now : Instant) : Bool :=
  decide (now.since w.lastSeen < threshold)

/-- What is logged about a dead worker. -/
structure Alert where
  workerID : String
  lastSeen : Int64
  /-- The time since the last heartbeat, of which the source logs the seconds. -/
  elapsed : Duration
deriving DecidableEq

def alertFor (w : WorkerInfo) (now : Instant) : Alert :=
  ⟨w.workerID, w.lastSeen, now.since w.lastSeen⟩

/-- What a round logs: the alerts, and the numbers at its end. -/
structure Report where
  alerts : List Alert
  totalWorkers : Nat
  alive : Nat
  dead : Int
deriving DecidableEq

/-- The loop of `reconcile` over the workers. -/
def survey (threshold : Duration) :
    List WorkerInfo → Nat → List Alert → Program (Nat × List Alert)
  | [], aliveCount, alerts => return (aliveCount, alerts)
  | w :: workers, aliveCount, alerts => do
      let now ← call .now
      if w.isAlive threshold now then survey threshold workers (aliveCount + 1) alerts
      else
        let now ← call .now
        survey threshold workers aliveCount (alerts ++ [alertFor w now])

/-- The report at the end of the loop. -/
def conclude (workers : List WorkerInfo) (res : Nat × List Alert) : Report :=
  ⟨res.2, workers.length, res.1, workers.length - res.1⟩

/-- `reconcile` after `ListWorkers`. -/
def afterList (threshold : Duration) :
    Except String (List WorkerInfo) → Program (Option Report)
  | .error _ => return none
  | .ok workers => do
      let res ← survey threshold workers 0 []
      return some (conclude workers res)

/-- `reconcile`; there is no report if the workers could not be listed. -/
def reconcile (threshold : Duration) : Program (Option Report) := do
  let workers ← listWorkers
  afterList threshold workers

-- ============================================================================
-- The system
-- ============================================================================

/-- The registry, with a round of `reconcile` for each call of `ListWorkers`. -/
structure Watch where
  base : State
  /-- What is left of the rounds whose `ListWorkers` has returned. -/
  surveys : Nat → Option (Program (Option Report))
  /-- When each round began. -/
  since : Nat → Instant
  /-- What the rounds have logged, newest first. -/
  reports : List (Nat × Option Report)

def Watch.init : Watch := ⟨State.init, fun _ => none, fun _ => .epoch, []⟩

inductive Watch.Action where
  | base (a : Workers.Action)
  /-- A round whose `ListWorkers` has returned takes its next step. -/
  | survey (n : Nat)

/-- A round goes on when its `ListWorkers` returns, and dies with its process. -/
def Watch.nextSurveys (threshold : Duration) (s : Watch) :
    Workers.Action → Nat → Option (Program (Option Report))
  | .listStep n _ =>
      match s.base.lists n with
      | some (.ret res) => Function.update s.surveys n (some (afterList threshold res))
      | _ => s.surveys
  | .stop n => Function.update s.surveys n none
  | _ => s.surveys

def Watch.nextSince (s : Watch) : Workers.Action → Nat → Instant
  | .list => Function.update s.since s.base.next s.base.now
  | _ => s.since

/-- The next step of a round after `ListWorkers`. -/
def surveyStep (s : Watch) (n : Nat) : Program (Option Report) → Option Watch
  | .ret res =>
      some { s with surveys := Function.update s.surveys n none, reports := (n, res) :: s.reports }
  | .call o k =>
      match exec s.base.db s.base.now [] o with
      | none => none
      | some (r, db) =>
          some { s with
            base := { s.base with db := db }
            surveys := Function.update s.surveys n (some (k r)) }

def Watch.apply (threshold : Duration) (s : Watch) : Watch.Action → Option Watch
  | .base a =>
      (s.base.apply a).map fun base =>
        { s with base := base, surveys := s.nextSurveys threshold a, since := s.nextSince a }
  | .survey n => (s.surveys n).bind (surveyStep s n)

/-- What is left of a round. -/
def Watch.round (threshold : Duration) (s : Watch) (n : Nat) : Option (Program (Option Report)) :=
  match s.base.lists n with
  | some p => some (p.bind (afterList threshold))
  | none => s.surveys n

/-- A round that has begun and is not over. -/
def Watch.Running (s : Watch) (n : Nat) : Prop :=
  (s.base.lists n).isSome ∨ (s.surveys n).isSome

instance (s : Watch) (n : Nat) : Decidable (s.Running n) :=
  inferInstanceAs (Decidable (_ ∨ _))

-- ============================================================================
-- Steps of the registry
-- ============================================================================

/-- What a step of the registry can add to the log, the beginning of a call of `ListWorkers`
    apart. -/
inductive LogStep (s : State) : Log → Prop
  | same : LogStep s s.log
  | executed (id : String) (call : Call) (clock : Instant) :
      LogStep s (.executed id call clock :: s.log)
  | read {n : Nat} (hn : (s.lists n).isSome) (key : String) : LogStep s (.read n key :: s.log)
  | returned {n : Nat} (hn : (s.lists n).isSome) (res : Except String (List WorkerInfo)) :
      LogStep s (.returned n res :: s.log)

/-- A step of the registry that begins no call of `ListWorkers`. -/
structure Calm (s s' : State) : Prop where
  now : s.now.ns ≤ s'.now.ns
  next : s'.next = s.next
  lists : ∀ n, (s'.lists n).isSome → (s.lists n).isSome
  log : LogStep s s'.log

section

variable {s s' : State} {n : Nat}

theorem isSome_of_update {β : Type} {f : Nat → Option β} {y : Option β} {m : Nat}
    (hn : (f n).isSome) (h : (Function.update f n y m).isSome) : (f m).isSome := by
  by_cases hmn : m = n
  · rw [hmn]
    exact hn
  · rwa [Function.update_of_ne hmn] at h

theorem isSome_of_update_none {β : Type} {f : Nat → Option β} {m : Nat}
    (h : (Function.update f n none m).isSome) : (f m).isSome := by
  by_cases hmn : m = n
  · rw [hmn, Function.update_self] at h
    cases h
  · rwa [Function.update_of_ne hmn] at h

theorem LogStep.suffix {log : Log} (h : LogStep s log) : s.log <:+ log := by
  cases h with
  | same => exact List.suffix_refl _
  | executed id call clock => exact List.suffix_cons ..
  | read hn key => exact List.suffix_cons ..
  | returned hn res => exact List.suffix_cons ..

/-- A read in the log was there before the step, or was made in it. -/
theorem LogStep.read_cases {log g : Log} {key : String} (h : LogStep s log)
    (hg : .read n key :: g <:+ log) :
    .read n key :: g <:+ s.log ∨ (g = s.log ∧ (s.lists n).isSome) := by
  cases h with
  | same => exact Or.inl hg
  | executed id call clock => exact Or.inl ((List.suffix_cons_iff.mp hg).resolve_left (by simp))
  | returned hn res => exact Or.inl ((List.suffix_cons_iff.mp hg).resolve_left (by simp))
  | read hn key' =>
      rcases List.suffix_cons_iff.mp hg with heq | hg
      · cases heq
        exact Or.inr ⟨rfl, hn⟩
      · exact Or.inl hg

/-- Only the data and the clock have changed. -/
theorem Calm.quiet (hnow : s.now.ns ≤ s'.now.ns) (hnext : s'.next = s.next)
    (hlists : s'.lists = s.lists) (hlog : s'.log = s.log) : Calm s s' := by
  refine ⟨hnow, hnext, fun n hn => ?_, ?_⟩
  · rwa [hlists] at hn
  · rw [hlog]
    exact .same

theorem Busy.step_calm {id : String} {b : Busy} (h : b.step s id = some s') : Calm s s' := by
  unfold Busy.step at h
  split at h
  · cases h
    exact .quiet (Nat.le_refl _) rfl rfl rfl
  · split at h
    · cases h
    · cases h
      refine ⟨Nat.le_refl _, rfl, fun _ hn => hn, ?_⟩
      dsimp only
      split
      · exact .same
      · exact .executed ..

theorem listStep_calm {order : List String} {p : Program (Except String (List WorkerInfo))}
    (hp : s.lists n = some p) (h : listStep s n order p = some s') : Calm s s' := by
  have hn : (s.lists n).isSome := by
    rw [hp]
    rfl
  cases p with
  | ret res =>
      cases h
      exact ⟨Nat.le_refl _, rfl, fun _ => isSome_of_update_none, .returned hn res⟩
  | call o k =>
      obtain ⟨r, db, -, rfl⟩ := listStep_call h
      refine ⟨Nat.le_refl _, rfl, fun _ => isSome_of_update hn, ?_⟩
      cases o with
      | hGetAll key => exact .read hn key
      | now => exact .same
      | hSet key values => exact .same
      | del key => exact .same
      | keys start => exact .same

/-- A step of the registry begins a call of `ListWorkers` or is calm. -/
theorem apply_cases {a : Action} (h : s.apply a = some s') :
    (a = .list ∧ s' = { s with
      lists := Function.update s.lists s.next (some listWorkers)
      next := s.next + 1
      log := .began s.next :: s.log }) ∨ (a ≠ .list ∧ Calm s s') := by
  cases a with
  | list =>
      cases h
      exact Or.inl ⟨rfl, rfl⟩
  | begin id call =>
      refine Or.inr ⟨by simp, ?_⟩
      simp only [State.apply] at h
      split at h
      · cases h
        exact .quiet (Nat.le_refl _) rfl rfl rfl
      · cases h
  | step id =>
      obtain ⟨b, -, hstep⟩ := Option.bind_eq_some_iff.mp h
      exact Or.inr ⟨by simp, Busy.step_calm hstep⟩
  | crash id =>
      cases h
      exact Or.inr ⟨by simp, .quiet (Nat.le_refl _) rfl rfl rfl⟩
  | listStep n order =>
      obtain ⟨p, hp, hstep⟩ := Option.bind_eq_some_iff.mp h
      exact Or.inr ⟨by simp, listStep_calm hp hstep⟩
  | stop n =>
      cases h
      exact Or.inr ⟨by simp, Nat.le_refl _, rfl, fun _ => isSome_of_update_none, .same⟩
  | tick now =>
      refine Or.inr ⟨by simp, ?_⟩
      simp only [State.apply] at h
      split at h
      · next hle =>
          cases h
          exact .quiet hle rfl rfl rfl
      · cases h
  | other key fields =>
      refine Or.inr ⟨by simp, ?_⟩
      simp only [State.apply] at h
      split at h
      · cases h
      · cases fields with
        | some fields =>
            cases h
            exact .quiet (Nat.le_refl _) rfl rfl rfl
        | none =>
            cases h
            exact .quiet (Nat.le_refl _) rfl rfl rfl

/-- Whether an action is one of a call of `ListWorkers`. -/
def Action.lists : Action → Bool
  | .list => true
  | .listStep .. => true
  | .stop _ => true
  | _ => false

theorem Busy.step_lists {id : String} {b : Busy} (h : b.step s id = some s') :
    s'.lists = s.lists := by
  unfold Busy.step at h
  split at h
  · cases h
    rfl
  · split at h
    · cases h
    · cases h
      rfl

/-- The others leave the calls of `ListWorkers` as they are. -/
theorem apply_lists {a : Action} (h : s.apply a = some s') (ha : ¬ a.lists = true) :
    s'.lists = s.lists := by
  cases a with
  | list => exact absurd rfl ha
  | listStep n order => exact absurd rfl ha
  | stop n => exact absurd rfl ha
  | begin id call =>
      simp only [State.apply] at h
      split at h <;> cases h
      rfl
  | step id =>
      obtain ⟨b, -, hstep⟩ := Option.bind_eq_some_iff.mp h
      exact Busy.step_lists hstep
  | crash id =>
      cases h
      rfl
  | tick now =>
      simp only [State.apply] at h
      split at h <;> cases h
      rfl
  | other key fields =>
      simp only [State.apply] at h
      split at h
      · cases h
      · cases fields <;> cases h <;> rfl

/-- What `ListWorkers` is about to return. -/
theorem Listing.of_ret {h : Log} {res : Except String (List WorkerInfo)}
    (hp : Listing n h (.ret res)) : ∃ infos, res = .ok infos ∧ Listed n h infos := by
  generalize hq : Prog.ret res = q at hp
  cases hp with
  | first hb => cases hq
  | @loop todo acc hc =>
      cases todo with
      | nil =>
          cases hq
          exact ⟨acc, rfl, hc.listed⟩
      | cons key todo => cases hq

theorem Listing.began {h : Log} {p : Program (Except String (List WorkerInfo))}
    (hp : Listing n h p) : .began n ∈ h := by
  cases hp with
  | first hb => exact hb
  | loop hc => exact hc.began

end

-- ============================================================================
-- The loop over the workers
-- ============================================================================

section

variable {threshold : Duration} {Q : Instant → Instant → Prop} {start now : Instant}
  {w : WorkerInfo} {done todo infos : List WorkerInfo} {alive : Nat} {alerts : List Alert}

theorem isAlive_iff : w.isAlive threshold now = true ↔ now.since w.lastSeen < threshold :=
  decide_eq_true_iff

/-- The workers `done` have been looked at by a round that began at `start`.  Each of its
    readings `t` of the clock has `Q start t`. -/
structure Tallied (threshold : Duration) (Q : Instant → Instant → Prop) (start : Instant)
    (done : List WorkerInfo) (alive : Nat) (alerts : List Alert) : Prop where
  count : alive + alerts.length = done.length
  named : List.Sublist (alerts.map fun a => (a.workerID, a.lastSeen))
    (done.map fun w => (w.workerID, w.lastSeen))
  late : ∀ a ∈ alerts, threshold ≤ a.elapsed ∧
    ∃ t : Instant, Q start t ∧ threshold ≤ t.since a.lastSeen
  looked : ∀ w ∈ done, (∃ a ∈ alerts, a.workerID = w.workerID ∧ a.lastSeen = w.lastSeen) ∨
    ∃ t : Instant, start.ns ≤ t.ns ∧ t.since w.lastSeen < threshold

theorem tallied_nil : Tallied threshold Q start [] 0 [] where
  count := rfl
  named := List.Sublist.refl _
  late := by simp
  looked := by simp

/-- A worker is found alive. -/
theorem Tallied.countAlive (ht : Tallied threshold Q start done alive alerts)
    (hstart : start.ns ≤ now.ns) (halive : now.since w.lastSeen < threshold) :
    Tallied threshold Q start (done ++ [w]) (alive + 1) alerts where
  count := by
    rw [List.length_append, List.length_singleton, ← ht.count]
    omega
  named := by
    rw [List.map_append]
    exact ht.named.trans (List.sublist_append_left ..)
  late := ht.late
  looked := by
    intro w' hw'
    rcases List.mem_append.mp hw' with hw' | hw'
    · exact ht.looked w' hw'
    · obtain rfl := List.mem_singleton.mp hw'
      exact Or.inr ⟨now, hstart, halive⟩

/-- A worker is found dead at `t`, and the alert is logged. -/
theorem Tallied.raise {t : Instant} (ht : Tallied threshold Q start done alive alerts)
    (hQ : Q start t) (hlate : threshold ≤ t.since w.lastSeen) (hle : t.ns ≤ now.ns) :
    Tallied threshold Q start (done ++ [w]) alive (alerts ++ [alertFor w now]) where
  count := by
    rw [List.length_append, List.length_append, List.length_singleton, List.length_singleton,
      ← Nat.add_assoc, ht.count]
  named := by
    rw [List.map_append, List.map_append]
    exact ht.named.append (List.Sublist.refl _)
  late := by
    intro a ha
    rcases List.mem_append.mp ha with ha | ha
    · exact ht.late a ha
    · obtain rfl := List.mem_singleton.mp ha
      exact ⟨Int64.le_trans hlate (Instant.since_le_since hle _), t, hQ, hlate⟩
  looked := by
    intro w' hw'
    rcases List.mem_append.mp hw' with hw' | hw'
    · refine (ht.looked w' hw').imp_left ?_
      rintro ⟨a, ha, hid⟩
      exact ⟨a, List.mem_append_left _ ha, hid⟩
    · obtain rfl := List.mem_singleton.mp hw'
      exact Or.inl ⟨_, List.mem_append_right _ (List.mem_singleton.mpr rfl), rfl, rfl⟩

/-- The `ListWorkers` of the round `n` has returned these workers. -/
def Returned (n : Nat) (h : Log) (infos : List WorkerInfo) : Prop :=
  ∃ g, .returned n (.ok infos) :: g <:+ h ∧ Listed n g infos

/-- What can be left of the round `n` after its `ListWorkers`. -/
inductive Surveying (threshold : Duration) (Q : Instant → Instant → Prop) (n : Nat) (h : Log)
    (start now : Instant) : Program (Option Report) → Prop
  | loop {infos done todo : List WorkerInfo} {alive : Nat} {alerts : List Alert}
      (hret : Returned n h infos) (hsplit : infos = done ++ todo)
      (ht : Tallied threshold Q start done alive alerts) :
      Surveying threshold Q n h start now
        ((survey threshold todo alive alerts).bind fun res => .ret (some (conclude infos res)))
  | alert {infos done todo : List WorkerInfo} {w : WorkerInfo} {alive : Nat}
      {alerts : List Alert} {t : Instant} (hret : Returned n h infos)
      (hsplit : infos = done ++ w :: todo) (ht : Tallied threshold Q start done alive alerts)
      (hQ : Q start t) (hlate : threshold ≤ t.since w.lastSeen) (hle : t.ns ≤ now.ns) :
      Surveying threshold Q n h start now
        ((Prog.call (S := sig) .now fun (now : Instant) =>
          survey threshold todo alive (alerts ++ [alertFor w now])).bind
            fun res => .ret (some (conclude infos res)))

/-- The report of the round `n`. -/
inductive Reported (threshold : Duration) (Q : Instant → Instant → Prop) (n : Nat) (h : Log)
    (start : Instant) : Option Report → Prop
  | mk {infos : List WorkerInfo} {alive : Nat} {alerts : List Alert} (hret : Returned n h infos)
      (ht : Tallied threshold Q start infos alive alerts) :
      Reported threshold Q n h start (some (conclude infos (alive, alerts)))

variable {n : Nat} {h h' : Log}

theorem Returned.mono (hret : Returned n h infos) (hsub : h <:+ h') : Returned n h' infos := by
  obtain ⟨g, hg, hlisted⟩ := hret
  exact ⟨g, hg.trans hsub, hlisted⟩

theorem Surveying.mono {now' : Instant} {p : Program (Option Report)}
    (hp : Surveying threshold Q n h start now p) (hsub : h <:+ h') (hnow : now.ns ≤ now'.ns) :
    Surveying threshold Q n h' start now' p := by
  cases hp with
  | loop hret hsplit ht => exact .loop (hret.mono hsub) hsplit ht
  | alert hret hsplit ht hQ hlate hle =>
      exact .alert (hret.mono hsub) hsplit ht hQ hlate (Nat.le_trans hle hnow)

theorem Reported.mono {res : Option Report} (hr : Reported threshold Q n h start res)
    (hsub : h <:+ h') : Reported threshold Q n h' start res := by
  cases hr with
  | mk hret ht => exact .mk (hret.mono hsub) ht

/-- The loop begins when `ListWorkers` has returned. -/
theorem surveying_afterList {res : Except String (List WorkerInfo)}
    (hp : Listing n h (.ret res)) :
    Surveying threshold Q n (.returned n res :: h) start now (afterList threshold res) := by
  obtain ⟨infos, rfl, hlisted⟩ := hp.of_ret
  exact .loop ⟨h, List.suffix_refl _, hlisted⟩ (List.nil_append infos).symm tallied_nil

/-- What a look at one worker leads to. -/
theorem surveying_look (hret : Returned n h infos) (hsplit : infos = done ++ w :: todo)
    (ht : Tallied threshold Q start done alive alerts) (hstart : start.ns ≤ now.ns)
    (hQ : Q start now) :
    Surveying threshold Q n h start now
      ((if w.isAlive threshold now then survey threshold todo (alive + 1) alerts
        else (call .now).bind fun now =>
          survey threshold todo alive (alerts ++ [alertFor w now])).bind
            fun res => .ret (some (conclude infos res))) := by
  by_cases halive : w.isAlive threshold now = true
  · rw [if_pos halive]
    rw [List.append_cons] at hsplit
    exact .loop hret hsplit (ht.countAlive hstart (isAlive_iff.mp halive))
  · rw [if_neg halive]
    refine .alert hret hsplit ht hQ ?_ (Nat.le_refl _)
    exact Int64.not_lt.mp fun hlt => halive (isAlive_iff.mpr hlt)

/-- A round after `ListWorkers` leaves the log and the beginnings of the rounds as they are. -/
theorem surveyStep_frame {s s' : Watch} {p : Program (Option Report)}
    (h : surveyStep s n p = some s') : s'.base.log = s.base.log ∧ s'.since = s.since := by
  cases p with
  | ret res =>
      cases h
      exact ⟨rfl, rfl⟩
  | call o k =>
      simp only [surveyStep] at h
      split at h
      · cases h
      · cases h
        exact ⟨rfl, rfl⟩

/-- One step of a round after `ListWorkers`: it ends with its report, or goes on. -/
theorem surveyStep_cases {s s' : Watch} {p : Program (Option Report)}
    (hp : Surveying threshold Q n s.base.log (s.since n) s.base.now p)
    (hstart : (s.since n).ns ≤ s.base.now.ns) (hQ : Q (s.since n) s.base.now)
    (h : surveyStep s n p = some s') :
    (∃ res, Reported threshold Q n s.base.log (s.since n) res ∧ p = .ret res ∧ s' = { s with
      surveys := Function.update s.surveys n none
      reports := (n, res) :: s.reports }) ∨
    ∃ k : Instant → Program (Option Report), p = .call .now k ∧
      Surveying threshold Q n s.base.log (s.since n) s.base.now (k s.base.now) ∧
      s' = { s with surveys := Function.update s.surveys n (some (k s.base.now)) } := by
  cases hp with
  | @loop infos done todo alive alerts hret hsplit ht =>
      cases todo with
      | nil =>
          cases h
          rw [List.append_nil] at hsplit
          subst hsplit
          exact Or.inl ⟨_, .mk hret ht, rfl, rfl⟩
      | cons w todo =>
          cases h
          exact Or.inr ⟨_, rfl, surveying_look hret hsplit ht hstart hQ, rfl⟩
  | @alert infos done todo w alive alerts t hret hsplit ht hQt hlate hle =>
      cases h
      rw [List.append_cons] at hsplit
      exact Or.inr ⟨_, rfl, .loop hret hsplit (ht.raise hQt hlate hle), rfl⟩

end

-- ============================================================================
-- The invariant
-- ============================================================================

/-- `Q` holds between the beginning of each round under way and now. -/
def Watch.Meets (Q : Instant → Instant → Prop) (s : Watch) : Prop :=
  ∀ n < s.base.next, s.Running n → Q (s.since n) s.base.now

structure Watched (threshold : Duration) (Q : Instant → Instant → Prop) (s : Watch) : Prop where
  base : Inv s.base
  lists : ∀ n, s.Running n → n < s.base.next
  apart : ∀ n, s.base.lists n = none ∨ s.surveys n = none
  since : ∀ n < s.base.next, (s.since n).ns ≤ s.base.now.ns
  /-- A round that has read a record has begun. -/
  reads : ∀ n key g, .read n key :: g <:+ s.base.log → n < s.base.next ∧ .began n ∈ g
  surveys : ∀ n p, s.surveys n = some p →
    Surveying threshold Q n s.base.log (s.since n) s.base.now p
  reports : ∀ n res, (n, res) ∈ s.reports → n < s.base.next ∧
    Reported threshold Q n s.base.log (s.since n) res

section

variable {threshold : Duration} {Q : Instant → Instant → Prop} {s s' : Watch} {n : Nat}

theorem watched_init : Watched threshold Q Watch.init where
  base := inv_init
  lists := by simp [Watch.Running, Watch.init, State.init]
  apart := fun _ => Or.inl rfl
  since := by simp [Watch.init, State.init]
  reads := by simp [Watch.init, State.init]
  surveys := by simp [Watch.init]
  reports := by simp [Watch.init]

/-- A round begins. -/
theorem Watched.begin (hs : Watched threshold Q s) (hbase : Inv { s.base with
      lists := Function.update s.base.lists s.base.next (some listWorkers)
      next := s.base.next + 1
      log := .began s.base.next :: s.base.log }) :
    Watched threshold Q { s with
      base := { s.base with
        lists := Function.update s.base.lists s.base.next (some listWorkers)
        next := s.base.next + 1
        log := .began s.base.next :: s.base.log }
      since := Function.update s.since s.base.next s.base.now } := by
  have hnew : s.surveys s.base.next = none := by
    by_contra hsome
    exact Nat.lt_irrefl _ (hs.lists _ (Or.inr (Option.isSome_iff_ne_none.mpr hsome)))
  have hold : ∀ m < s.base.next,
      Function.update s.since s.base.next s.base.now m = s.since m := fun m hm =>
    Function.update_of_ne (Nat.ne_of_lt hm) _ _
  have hsub : s.base.log <:+ .began s.base.next :: s.base.log := List.suffix_cons ..
  refine ⟨hbase, ?_, ?_, ?_, ?_, ?_, ?_⟩
  · intro m hm
    by_cases heq : m = s.base.next
    · rw [heq]
      exact Nat.lt_succ_self _
    · refine Nat.lt_succ_of_lt (hs.lists m (hm.imp_left fun h => ?_))
      simpa only [Function.update_of_ne heq] using h
  · intro m
    by_cases heq : m = s.base.next
    · rw [heq]
      exact Or.inr hnew
    · refine (hs.apart m).imp_left fun h => ?_
      rw [← h]
      exact Function.update_of_ne heq _ _
  · intro m hm
    rcases Nat.lt_succ_iff_lt_or_eq.mp hm with hm | rfl
    · dsimp only
      rw [hold m hm]
      exact hs.since m hm
    · dsimp only
      rw [Function.update_self]
  · intro m key g hg
    have hg' := (List.suffix_cons_iff.mp hg).resolve_left (by simp)
    exact ⟨Nat.lt_succ_of_lt (hs.reads m key g hg').1, (hs.reads m key g hg').2⟩
  · intro m p hp
    have hm : m < s.base.next := hs.lists m (Or.inr (Option.isSome_of_mem hp))
    dsimp only
    rw [hold m hm]
    exact (hs.surveys m p hp).mono hsub (Nat.le_refl _)
  · intro m res hmem
    obtain ⟨hm, hr⟩ := hs.reports m res hmem
    dsimp only
    rw [hold m hm]
    exact ⟨Nat.lt_succ_of_lt hm, hr.mono hsub⟩

/-- A round that has its workers has no `ListWorkers` under way. -/
theorem Watched.lists_eq_none (hs : Watched threshold Q s) {p : Program (Option Report)}
    (hp : s.surveys n = some p) : s.base.lists n = none :=
  (hs.apart n).resolve_right (by simp [hp])

/-- A new read in the log is by a call that has begun. -/
theorem Watched.reads_step (hs : Watched threshold Q s) {log : Log} (hlog : LogStep s.base log)
    {key : String} {g : Log} (hg : .read n key :: g <:+ log) :
    n < s.base.next ∧ .began n ∈ g := by
  rcases hlog.read_cases hg with hold | ⟨rfl, hn⟩
  · exact hs.reads n key g hold
  · obtain ⟨p, hp⟩ := Option.isSome_iff_exists.mp hn
    exact ⟨hs.lists n (Or.inl hn), (hs.base.lists n p hp).began⟩

/-- A step of the registry that begins no round. -/
theorem Watched.calm {base : State} {surveys : Nat → Option (Program (Option Report))}
    (hs : Watched threshold Q s) (hbase : Inv base) (hc : Calm s.base base)
    (hsurveys : ∀ n p, surveys n = some p → base.lists n = none ∧
      (s.surveys n = some p ∨
        (s.Running n ∧ Surveying threshold Q n base.log (s.since n) base.now p))) :
    Watched threshold Q { s with base := base, surveys := surveys } := by
  have hnext := hc.next
  have hrun : ∀ n p, surveys n = some p → s.Running n := by
    intro n p hp
    rcases (hsurveys n p hp).2 with hp | ⟨hn, -⟩
    · exact Or.inr (Option.isSome_of_mem hp)
    · exact hn
  refine ⟨hbase, ?_, ?_, ?_, ?_, ?_, ?_⟩
  · intro m hm
    rw [hnext]
    apply hs.lists
    rcases hm with hm | hm
    · exact Or.inl (hc.lists m hm)
    · obtain ⟨p, hp⟩ := Option.isSome_iff_exists.mp hm
      exact hrun m p hp
  · intro m
    cases hp : surveys m with
    | none => exact Or.inr hp
    | some p => exact Or.inl (hsurveys m p hp).1
  · intro m hm
    rw [hnext] at hm
    exact Nat.le_trans (hs.since m hm) hc.now
  · intro m key g hg
    rw [hnext]
    exact hs.reads_step hc.log hg
  · intro m p hp
    rcases (hsurveys m p hp).2 with hp | ⟨-, hnew⟩
    · exact (hs.surveys m p hp).mono hc.log.suffix hc.now
    · exact hnew
  · intro m res hmem
    obtain ⟨hm, hr⟩ := hs.reports m res hmem
    rw [hnext]
    exact ⟨hm, hr.mono hc.log.suffix⟩

/-- The rounds after `ListWorkers`, when a step of the registry has been taken. -/
theorem Watched.nextSurveys (hs : Watched threshold Q s) {a : Action} {base : State}
    (ha : s.base.apply a = some base) (hc : Calm s.base base) (n : Nat)
    (p : Program (Option Report)) (hp : s.nextSurveys threshold a n = some p) :
    base.lists n = none ∧ (s.surveys n = some p ∨
      (s.Running n ∧ Surveying threshold Q n base.log (s.since n) base.now p)) := by
  have hkeep : s.surveys n = some p → base.lists n = none ∧ (s.surveys n = some p ∨
      (s.Running n ∧ Surveying threshold Q n base.log (s.since n) base.now p)) := by
    intro hold
    have hnone := hs.lists_eq_none hold
    refine ⟨?_, Or.inl hold⟩
    by_contra hsome
    have := hc.lists n (Option.isSome_iff_ne_none.mpr hsome)
    simp [hnone] at this
  cases a with
  | listStep m order =>
      obtain ⟨q, hq, hstep⟩ := Option.bind_eq_some_iff.mp ha
      simp only [Watch.nextSurveys, hq] at hp
      cases q with
      | call o k => exact hkeep hp
      | ret res =>
          rcases update_eq_some hp with ⟨rfl, hnew⟩ | ⟨-, hold⟩
          · cases hnew
            cases hstep
            refine ⟨Function.update_self .., Or.inr ⟨Or.inl (Option.isSome_of_mem hq), ?_⟩⟩
            exact surveying_afterList (hs.base.lists n _ hq)
          · exact hkeep hold
  | stop m =>
      rcases update_eq_some hp with ⟨-, hnone⟩ | ⟨-, hold⟩
      · cases hnone
      · exact hkeep hold
  | begin id call => exact hkeep hp
  | step id => exact hkeep hp
  | crash id => exact hkeep hp
  | list => exact hkeep hp
  | tick now => exact hkeep hp
  | other key fields => exact hkeep hp

/-- A round after `ListWorkers` takes a step. -/
theorem Watched.survey (hs : Watched threshold Q s) {p : Program (Option Report)}
    (hp : s.surveys n = some p) (hmeets : s.Meets Q) (h : surveyStep s n p = some s') :
    Watched threshold Q s' := by
  have hrun : s.Running n := Or.inr (Option.isSome_of_mem hp)
  have hn := hs.lists n hrun
  have hdrop : ∀ {q : Option (Program (Option Report))} {m : Nat},
      (Function.update s.surveys n q m).isSome → s.Running m := by
    intro q m hm
    exact Or.inr (isSome_of_update (Option.isSome_of_mem hp) hm)
  have hapart : ∀ (q : Option (Program (Option Report))) (m : Nat),
      s.base.lists m = none ∨ Function.update s.surveys n q m = none := by
    intro q m
    by_cases hmn : m = n
    · rw [hmn]
      exact Or.inl (hs.lists_eq_none hp)
    · rw [Function.update_of_ne hmn]
      exact hs.apart m
  rcases surveyStep_cases (hs.surveys n p hp) (hs.since n hn) (hmeets n hn hrun) h with
    ⟨res, hres, -, rfl⟩ | ⟨k, -, hnext, rfl⟩
  · refine ⟨hs.base, ?_, hapart none, hs.since, hs.reads, ?_, ?_⟩
    · exact fun m hm => hs.lists m (hm.elim Or.inl hdrop)
    · intro m q hq
      rcases update_eq_some hq with ⟨-, hnone⟩ | ⟨-, hq⟩
      · cases hnone
      · exact hs.surveys m q hq
    · intro m r hmem
      rcases List.mem_cons.mp hmem with heq | hmem
      · cases heq
        exact ⟨hn, hres⟩
      · exact hs.reports m r hmem
  · refine ⟨hs.base, ?_, hapart _, hs.since, hs.reads, ?_, hs.reports⟩
    · exact fun m hm => hs.lists m (hm.elim Or.inl hdrop)
    · intro m q hq
      rcases update_eq_some hq with ⟨rfl, hnew⟩ | ⟨-, hq⟩
      · cases hnew
        exact hnext
      · exact hs.surveys m q hq

theorem nextSince_of_ne {a : Action} (ha : a ≠ .list) : s.nextSince a = s.since := by
  cases a with
  | list => exact absurd rfl ha
  | _ => rfl

theorem Watched.step {a : Watch.Action} (hs : Watched threshold Q s) (hmeets : s.Meets Q)
    (h : s.apply threshold a = some s') : Watched threshold Q s' := by
  cases a with
  | survey n =>
      obtain ⟨p, hp, hstep⟩ := Option.bind_eq_some_iff.mp h
      exact hs.survey hp hmeets hstep
  | base a =>
      obtain ⟨base, ha, rfl⟩ := Option.map_eq_some_iff.mp h
      have hbase : Inv base := hs.base.step ha
      rcases apply_cases ha with ⟨rfl, rfl⟩ | ⟨hne, hc⟩
      · exact hs.begin hbase
      · rw [nextSince_of_ne hne]
        exact hs.calm hbase hc (hs.nextSurveys ha hc)

theorem reaches_watched {C : Watch → Watch.Action → Prop}
    (h : Reaches (Watch.apply threshold) C Watch.init s) (hC : ∀ s a, C s a → s.Meets Q) :
    Watched threshold Q s :=
  h.invariant watched_init fun x a _ _ hx hxa hxy => hx.step (hC x a hxa) hxy

theorem round_of_list {p : Program (Except String (List WorkerInfo))}
    (h : s.base.lists n = some p) :
    s.round threshold n = some (p.bind (afterList threshold)) := by
  rw [Watch.round, h]

theorem round_of_none (h : s.base.lists n = none) : s.round threshold n = s.surveys n := by
  rw [Watch.round, h]

/-- A round is what its two parts are. -/
theorem round_congr (hlists : s'.base.lists n = s.base.lists n)
    (hsurveys : s'.surveys n = s.surveys n) : s'.round threshold n = s.round threshold n := by
  rw [Watch.round, Watch.round, hlists, hsurveys]

/-- One step of the round `n`: it returns with its report, or makes its next call. -/
def RoundStep (threshold : Duration) (s s' : Watch) (n : Nat) : Prop :=
  (∃ res, s.round threshold n = some (.ret res) ∧ s'.round threshold n = none ∧
    s'.reports = (n, res) :: s.reports) ∨
  ∃ o k order r db, s.round threshold n = some (.call o k) ∧
    exec s.base.db s.base.now order o = some (r, db) ∧ s'.round threshold n = some (k r)

theorem surveyStep_round {m : Nat} {p : Program (Option Report)} (hp : s.surveys m = some p)
    (hlist : s.base.lists m = none) (h : surveyStep s m p = some s') :
    s'.round threshold n = s.round threshold n ∨ RoundStep threshold s s' n := by
  have hround : s.round threshold m = some p := (round_of_none hlist).trans hp
  cases p with
  | ret res =>
      cases h
      by_cases hnm : n = m
      · subst hnm
        refine Or.inr (Or.inl ⟨res, hround, ?_, rfl⟩)
        rw [round_of_none (by exact hlist)]
        exact Function.update_self ..
      · exact Or.inl (round_congr rfl (Function.update_of_ne hnm ..))
  | call o k =>
      simp only [surveyStep] at h
      split at h
      · cases h
      · next r db hexec =>
          cases h
          by_cases hnm : n = m
          · subst hnm
            refine Or.inr (Or.inr ⟨o, k, [], r, db, hround, hexec, ?_⟩)
            rw [round_of_none (by exact hlist)]
            exact Function.update_self ..
          · exact Or.inl (round_congr rfl (Function.update_of_ne hnm ..))

theorem listStep_round {m : Nat} {order : List String} {base : State}
    {p : Program (Except String (List WorkerInfo))} (hp : s.base.lists m = some p)
    (h : listStep s.base m order p = some base) (hs' : s' = { s with
      base := base
      surveys := s.nextSurveys threshold (.listStep m order) }) :
    s'.round threshold n = s.round threshold n ∨ RoundStep threshold s s' n := by
  have hround : s.round threshold m = some (p.bind (afterList threshold)) := round_of_list hp
  simp only [Watch.nextSurveys, hp] at hs'
  subst hs'
  cases p with
  | ret res =>
      -- the call returns, and the round goes on with what it returned
      cases h
      by_cases hnm : n = m
      · subst hnm
        left
        rw [hround, round_of_none (Function.update_self ..)]
        exact Function.update_self ..
      · exact Or.inl (round_congr (Function.update_of_ne hnm ..) (Function.update_of_ne hnm ..))
  | call o k =>
      obtain ⟨r, db, hexec, rfl⟩ := listStep_call h
      by_cases hnm : n = m
      · subst hnm
        refine Or.inr (Or.inr ⟨o, _, order, r, db, hround, hexec, ?_⟩)
        exact round_of_list (Function.update_self ..)
      · exact Or.inl (round_congr (Function.update_of_ne hnm ..) rfl)

/-- The rounds make the calls of `reconcile`: in a step of the system a round is left as it is,
    or it begins, is stopped, or takes one step. -/
theorem round_cases {a : Watch.Action} (hs : Watched threshold Q s)
    (h : s.apply threshold a = some s') (n : Nat) :
    s'.round threshold n = s.round threshold n ∨
    (a = .base .list ∧ s'.round threshold n = some (reconcile threshold)) ∨
    (a = .base (.stop n) ∧ s'.round threshold n = none) ∨ RoundStep threshold s s' n := by
  have hstep : (s'.round threshold n = s.round threshold n ∨ RoundStep threshold s s' n) →
      s'.round threshold n = s.round threshold n ∨
      (a = .base .list ∧ s'.round threshold n = some (reconcile threshold)) ∨
      (a = .base (.stop n) ∧ s'.round threshold n = none) ∨ RoundStep threshold s s' n :=
    fun h => h.imp_right fun h => Or.inr (Or.inr h)
  cases a with
  | survey m =>
      obtain ⟨p, hp, hsurvey⟩ := Option.bind_eq_some_iff.mp h
      exact hstep (surveyStep_round hp (hs.lists_eq_none hp) hsurvey)
  | base a =>
      obtain ⟨base, ha, rfl⟩ := Option.map_eq_some_iff.mp h
      by_cases hbusy : a.lists = true
      · cases a with
        | list =>
            cases ha
            by_cases hn : n = s.base.next
            · subst hn
              exact Or.inr (Or.inl ⟨rfl, round_of_list (Function.update_self ..)⟩)
            · exact Or.inl (round_congr (Function.update_of_ne hn ..) rfl)
        | listStep m order =>
            obtain ⟨p, hp, hlist⟩ := Option.bind_eq_some_iff.mp ha
            exact hstep (listStep_round hp hlist rfl)
        | stop m =>
            cases ha
            by_cases hn : n = m
            · subst hn
              refine Or.inr (Or.inr (Or.inl ⟨rfl, ?_⟩))
              exact (round_of_none (Function.update_self ..)).trans (Function.update_self ..)
            · exact Or.inl (round_congr (Function.update_of_ne hn ..) (Function.update_of_ne hn ..))
        | _ => cases hbusy
      · refine Or.inl (round_congr (congrFun (apply_lists ha hbusy) n) ?_)
        cases a with
        | listStep m order => exact absurd rfl hbusy
        | stop m => exact absurd rfl hbusy
        | _ => rfl

-- ============================================================================
-- Reports
-- ============================================================================

/-- The report of the round `n`, which began at `start` and whose `ListWorkers` returned with
    the log `h`. -/
structure Exact (threshold : Duration) (n : Nat) (h : Log) (start : Instant) (r : Report) :
    Prop where
  /-- A worker that is registered and not heard of during the listing, and was last seen the
      threshold ago when the round began. -/
  complete : ∀ id st, id ≠ "" → (∀ g, g <:+ h → .began n ∈ g → status id g = some st) →
    st.2.toInt * 1000000000 + threshold.toInt ≤ start.ns →
    ∃ a ∈ r.alerts, a.workerID = id ∧ a.lastSeen = st.2
  sound : ∀ a ∈ r.alerts, threshold ≤ a.elapsed ∧
    ∃ startedAt, Seen n h ⟨a.workerID, a.lastSeen, startedAt⟩
  distinct : (r.alerts.map (·.workerID)).Nodup
  total : r.alive + r.alerts.length = r.totalWorkers
  dead : r.dead = r.alerts.length

/-- The record a worker was judged by. -/
theorem Tallied.exists_info {start : Instant} {infos : List WorkerInfo} {alive : Nat}
    {alerts : List Alert} (ht : Tallied threshold Q start infos alive alerts) {a : Alert}
    (ha : a ∈ alerts) :
    ∃ w ∈ infos, w.workerID = a.workerID ∧ w.lastSeen = a.lastSeen := by
  have hmem := ht.named.subset (List.mem_map.mpr ⟨a, ha, rfl⟩)
  obtain ⟨w, hw, heq⟩ := List.mem_map.mp hmem
  exact ⟨w, hw, congrArg Prod.fst heq, congrArg Prod.snd heq⟩

theorem le_since {t : Instant} {sec : Int64} (h : sec.toInt * 1000000000 + threshold.toInt ≤ t.ns) :
    threshold ≤ t.since sec := by
  have hlt := threshold.toInt_lt
  rw [Int64.le_iff_toInt_le, Instant.since_toInt]
  omega

theorem Tallied.exact {start : Instant} {infos : List WorkerInfo} {alive : Nat}
    {alerts : List Alert} {g : Log} (ht : Tallied threshold Q start infos alive alerts)
    (hlisted : Listed n g infos) (hreads : ∀ key g', .read n key :: g' <:+ g → .began n ∈ g') :
    Exact threshold n g start (conclude infos (alive, alerts)) where
  complete := by
    intro id st hid hst hlast
    have hne : ∀ g', g' <:+ g → .began n ∈ g' → status id g' ≠ none := by
      intro g' hg' hb
      rw [hst g' hg' hb]
      exact Option.some_ne_none st
    obtain ⟨w, hw, rfl⟩ := hlisted.complete id hid hne
    -- the record that was listed is the one the worker has had all the time
    obtain ⟨g', hread, hstatus, -⟩ := hlisted.sound w hw
    have heq := (hst g' ((List.suffix_cons ..).trans hread) (hreads _ _ hread)).symm.trans hstatus
    cases heq
    rcases ht.looked w hw with ha | ⟨t, hle, hlt⟩
    · exact ha
    · dsimp only at hlast
      have hthreshold : threshold ≤ t.since w.lastSeen := le_since (by omega)
      exact absurd hlt (Int64.not_lt.mpr hthreshold)
  sound := by
    intro a ha
    obtain ⟨w, hw, hid, hseen⟩ := ht.exists_info ha
    refine ⟨(ht.late a ha).1, w.startedAt, ?_⟩
    rw [← hid, ← hseen]
    exact hlisted.sound w hw
  distinct := by
    have hsub := ht.named.map Prod.fst
    rw [List.map_map, List.map_map] at hsub
    exact hlisted.nodup.sublist hsub
  total := ht.count
  dead := by
    have hcount := ht.count
    simp only [conclude]
    omega

end

/-- Every report is exact, in every run. -/
theorem reports_exact {threshold : Duration} {as : List Watch.Action} {s : Watch}
    (hrun : runFrom (Watch.apply threshold) Watch.init as = some s) {n : Nat}
    {res : Option Report} (hres : (n, res) ∈ s.reports) :
    ∃ r infos h, res = some r ∧ .returned n (.ok infos) :: h <:+ s.base.log ∧
      Exact threshold n h (s.since n) r := by
  have hs : Watched threshold (fun _ _ => True) s :=
    reaches_watched (C := fun _ _ => True) ⟨as, hrun, everyStep_of_forall (fun _ _ => trivial) _ _⟩
      fun _ _ _ _ _ _ => trivial
  obtain ⟨-, hr⟩ := hs.reports n res hres
  cases hr with
  | @mk infos alive alerts hret ht =>
      obtain ⟨g, hg, hlisted⟩ := hret
      refine ⟨_, infos, g, rfl, hg, ht.exact hlisted ?_⟩
      intro key g' hg'
      exact (hs.reads n key g' (hg'.trans ((List.suffix_cons ..).trans hg))).2

/-- Both workers registered at 6 s, and only the second is heard of again before the round at
    46 s. -/
def oneSilent : List Watch.Action :=
  [.tick ⟨6000000000, by decide⟩, .begin "a" .register, .step "a", .step "a", .step "a",
    .begin "b" .register, .step "b", .step "b", .step "b", .tick ⟨30000000000, by decide⟩,
    .begin "b" .heartbeat, .step "b", .step "b", .step "b", .tick ⟨46000000000, by decide⟩,
    .list, .listStep 0 ["worker:registry:a", "worker:registry:b"], .listStep 0 [],
    .listStep 0 [], .listStep 0 []].map .base ++
  [.survey 0, .survey 0, .base (.tick ⟨47000000000, by decide⟩), .survey 0, .survey 0]

theorem runFrom_oneSilent : ∃ s,
    runFrom (Watch.apply (30 * second)) Watch.init oneSilent = some s ∧
    s.reports = [(0, some ⟨[⟨"a", 6, 40 * second⟩], 2, 1, 1⟩)] :=
  ⟨_, rfl, rfl⟩

theorem reports_exact_one_silent : ∃ s,
    runFrom (Watch.apply (30 * second)) Watch.init oneSilent = some s ∧
    s.reports = [(0, some ⟨[⟨"a", 6, 40 * second⟩], 2, 1, 1⟩)] ∧
    ∃ r infos h, .returned 0 (.ok infos) :: h <:+ s.base.log ∧
      Exact (30 * second) 0 h (s.since 0) r := by
  obtain ⟨s, hrun, hrep⟩ := runFrom_oneSilent
  obtain ⟨r, infos, h, -, hret, hexact⟩ := reports_exact hrun (n := 0)
    (by rw [hrep]; exact List.mem_singleton.mpr rfl)
  exact ⟨s, hrun, hrep, r, infos, h, hret, hexact⟩

-- ============================================================================
-- False alarms
-- ============================================================================

/-- The reading of the clock in the newest registration or heartbeat of a worker; `none` if it
    is not registered. -/
def heard (id : String) : Log → Option Instant
  | [] => none
  | .executed id' call clock :: h =>
      if id' = id then
        match call with
        | .register => some clock
        | .heartbeat => (heard id h).map fun _ => clock
        | .deregister => none
      else heard id h
  | _ :: h => heard id h

/-- A worker was last seen when it was heard, in whole seconds. -/
theorem heard_unix (id : String) (h : Log) :
    (heard id h).map Instant.unix = (status id h).map Prod.snd := by
  induction h with
  | nil => rfl
  | cons e h ih =>
      cases e with
      | executed id' call clock =>
          simp only [heard, status]
          split
          · cases call with
            | register => rfl
            | heartbeat =>
                calc ((heard id h).map fun _ => clock).map Instant.unix
                    = ((heard id h).map Instant.unix).map fun _ => clock.unix := by
                      simp only [Option.map_map, Function.comp_def]
                  _ = ((status id h).map Prod.snd).map fun _ => clock.unix := by rw [ih]
                  _ = ((status id h).map fun st => (st.1, clock.unix)).map Prod.snd := by
                      simp only [Option.map_map, Function.comp_def]
            | deregister => rfl
          · exact ih
      | began n => exact ih
      | read n key => exact ih
      | returned n res => exact ih

/-- The worker is heard of every `gap` as long as it is registered, and a round takes at most
    `d` from its beginning to its last look at a worker. -/
structure Prompt (id : String) (gap d : Nat) (s : Watch) : Prop where
  heard : ∀ t ∈ heard id s.base.log, s.base.now.ns ≤ t.ns + gap
  rounds : s.Meets fun start now => now.ns ≤ start.ns + d

instance (id : String) (gap d : Nat) (s : Watch) : Decidable (Prompt id gap d s) :=
  decidable_of_iff ((∀ t ∈ heard id s.base.log, s.base.now.ns ≤ t.ns + gap) ∧
      ∀ n < s.base.next, s.Running n → s.base.now.ns ≤ (s.since n).ns + d)
    ⟨fun h => ⟨h.1, h.2⟩, fun h => ⟨h.heard, h.rounds⟩⟩

section

variable {threshold : Duration} {Q : Instant → Instant → Prop} {id : String} {gap d : Nat}
  {s s' : Watch}

/-- A round that has read the record of the worker began before the worker was overdue. -/
def ReadFresh (id : String) (gap : Nat) (s : Watch) : Prop :=
  ∀ n g st, .read n (workerKey id) :: g <:+ s.base.log → status id g = some st →
    (s.since n).ns < (st.2.toInt + 1) * 1000000000 + gap

/-- The second in which a worker was heard is less than a second before it. -/
theorem ns_lt_of_status {h : Log} {st : Int64 × Int64} (hst : status id h = some st) :
    ∃ t, heard id h = some t ∧ (t.ns : Int) < (st.2.toInt + 1) * 1000000000 := by
  have hunix := heard_unix id h
  rw [hst, Option.map_some] at hunix
  obtain ⟨t, ht, heq⟩ := Option.map_eq_some_iff.mp hunix
  refine ⟨t, ht, ?_⟩
  rw [← heq, Instant.unix_toInt]
  omega

theorem ReadFresh.step {a : Watch.Action} (hf : ReadFresh id gap s) (hs : Watched threshold Q s)
    (hheard : ∀ t ∈ heard id s.base.log, s.base.now.ns ≤ t.ns + gap)
    (h : s.apply threshold a = some s') : ReadFresh id gap s' := by
  intro n g st hg hst
  cases a with
  | survey m =>
      obtain ⟨p, -, hstep⟩ := Option.bind_eq_some_iff.mp h
      obtain ⟨hlog, hsince⟩ := surveyStep_frame hstep
      rw [hlog] at hg
      rw [hsince]
      exact hf n g st hg hst
  | base a =>
      obtain ⟨base, ha, rfl⟩ := Option.map_eq_some_iff.mp h
      rcases apply_cases ha with ⟨rfl, rfl⟩ | ⟨hne, hc⟩
      · have hg' := (List.suffix_cons_iff.mp hg).resolve_left (by simp)
        have hn := (hs.reads n _ g hg').1
        have hsince : s.nextSince .list n = s.since n := Function.update_of_ne (Nat.ne_of_lt hn) _ _
        dsimp only
        rw [hsince]
        exact hf n g st hg' hst
      · dsimp only
        rw [nextSince_of_ne hne]
        rcases hc.log.read_cases hg with hold | ⟨rfl, hn⟩
        · exact hf n g st hold hst
        · -- the record is read now
          have hstart := hs.since n (hs.lists n (Or.inl hn))
          obtain ⟨t, ht, hlt⟩ := ns_lt_of_status hst
          have hnow := hheard t ht
          omega

end

/-- A worker that keeps sending heartbeats is never reported, whatever becomes of the others. -/
theorem heartbeat_prevents_alert {threshold : Duration} {id : String} {gap d : Nat}
    (hroom : gap + d + 1000000000 ≤ threshold.toInt) {as : List Watch.Action} {s : Watch}
    (hrun : runFrom (Watch.apply threshold) Watch.init as = some s)
    (hprompt : EveryStep (Watch.apply threshold) (fun s _ => Prompt id gap d s) Watch.init as)
    {n : Nat} {r : Report} (hr : (n, some r) ∈ s.reports) : ∀ a ∈ r.alerts, a.workerID ≠ id := by
  have hreach : Reaches (Watch.apply threshold) (fun s _ => Prompt id gap d s) Watch.init s :=
    ⟨as, hrun, hprompt⟩
  have hrounds : ∀ s (_ : Watch.Action), Prompt id gap d s →
      s.Meets fun start now => now.ns ≤ start.ns + d := fun _ _ h => h.rounds
  have hs := reaches_watched hreach hrounds
  have hfresh : ReadFresh id gap s :=
    Reaches.invariant (I := ReadFresh id gap) hreach (by simp [ReadFresh, Watch.init, State.init])
      fun x a y hx hf hp hxy => hf.step (reaches_watched hx hrounds) hp.heard hxy
  obtain ⟨-, hreport⟩ := hs.reports n _ hr
  cases hreport with
  | @mk infos alive alerts hret ht =>
      rintro a ha rfl
      obtain ⟨h, hsub, hlisted⟩ := hret
      obtain ⟨w, hw, hid, hseen⟩ := ht.exists_info ha
      obtain ⟨g, hg, hst, -⟩ := hlisted.sound w hw
      -- the record was fresh when the round began, and the round looked at it in time
      have hbegan : (s.since n).ns < (w.lastSeen.toInt + 1) * 1000000000 + gap := by
        rw [hid] at hg hst
        exact hfresh n g (w.startedAt, w.lastSeen) (hg.trans ((List.suffix_cons ..).trans hsub)) hst
      obtain ⟨-, t, hquick, hlate⟩ := ht.late a ha
      rw [← hseen, Int64.le_iff_toInt_le, Instant.since_toInt] at hlate
      omega

theorem heartbeat_prevents_alert_one_silent : ∃ s r,
    runFrom (Watch.apply (30 * second)) Watch.init oneSilent = some s ∧
    (0, some r) ∈ s.reports ∧ r.totalWorkers = 2 ∧ ∀ a ∈ r.alerts, a.workerID ≠ "b" := by
  obtain ⟨s, hrun, hrep⟩ := runFrom_oneSilent
  have hmem : (0, some ⟨[⟨"a", 6, 40 * second⟩], 2, 1, 1⟩) ∈ s.reports := by
    rw [hrep]
    exact List.mem_singleton.mpr rfl
  refine ⟨s, _, hrun, hmem, rfl, ?_⟩
  have hroom : ((25000000000 : Nat) + (2000000000 : Nat) + 1000000000 : Int) ≤
      (30 * second).toInt := by decide
  exact heartbeat_prevents_alert hroom hrun (by decide +kernel) hmem

end LogPipeline.Registry.Workers
