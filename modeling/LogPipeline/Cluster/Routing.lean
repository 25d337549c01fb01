/-
  LogPipeline.Cluster.Routing

  Where jobs are stored.

  The first part is about the functions: which partition a service is routed to,
  which stream the producer writes, the bootstrap code creates, the worker of that
  partition reads and `StreamLength` counts (`Covered`).

  The second part is about runs without requeueing by an operator.  In them an
  entry of a partition stream comes from a producer, that routed it there, or from
  a worker of the partition, that copied a job of the same stream.  Dead letters
  are a third source if their stream has the name of a partition stream
  (`dead_letter_in_partition`); if it has not, every entry of a partition holds a
  job that is routed to it (`routing_covered_sticky`).
-/

import LogPipeline.Cluster.Control
import LogPipeline.Cluster.Faults
import LogPipeline.Ingestion.Metrics
import LogPipeline.Queue.Names

namespace LogPipeline.Cluster

open Conc Go Redis Queue Bootstrap Ingestion

-- ============================================================================
-- The property
-- ============================================================================

/-- The partition a service is routed to. -/
def Deployment.route (D : Deployment) (service : String) : Int64 := partitionFor D.cfg.queue service

/-- An XADD writes a job of one of the events to the stream of the event's
    partition. -/
def AddsRouted (D : Deployment) (evs : List LogEvent) (o : Op) : Prop :=
  ∀ ctx stream maxLen v, o = .redis ctx (.xAdd stream maxLen v) →
    ∃ job, ∃ ev ∈ evs, v.job = some job ∧ job.data = some ev ∧
      stream = partitionStreamName D.cfg.queue.baseStreamName (D.route ev.service)

/-- The stream has the group. -/
def HasGroup (s : Store) (stream group : String) : Prop :=
  ∃ g, (s.streams stream).groups group = some g

/-- The functions that name partition streams agree on the partition of a
    service. -/
structure Covered (D : Deployment) : Prop where
  range : ∀ service, D.IsPartition (D.route service)
  enqueue : ∀ ctx ev, (enqueue D.cfg.queue ctx ev).Uses (AddsRouted D [ev])
  enqueueBatch : ∀ ctx evs, (enqueueBatch D.cfg.queue ctx evs).Uses (AddsRouted D evs)
  /-- `SetupPartitions`, run on any state of the server, leaves every partition with
      its group. -/
  created : ∀ t clock s, ∃ s' n,
    (setupPartitions D.cfg.queue .background).solo (observe D t clock) (s, 0) =
      some (.ok (), s', n) ∧
    ∀ p, D.IsPartition p → HasGroup s' (D.partitionStream p) (D.partitionGroup p)
  /-- The worker of a partition reads its stream with that group. -/
  read : ∀ p workerID ctx block, ((consumerOf D.cfg.queue p workerID).consume ctx block).Uses
    fun o => o =
      Op.redis ctx (.xReadGroup (D.partitionStream p) (D.partitionGroup p) workerID block)
  /-- `StreamLength` adds up the lengths of all partition streams. -/
  length : ∀ t clock s, ∃ s' n,
    (streamLength D.cfg.queue .background).solo (observe D t clock) (s, 0) =
      some (.ok (Int64.ofNat
        ((D.partitions.map D.partitionStream).map fun x => (s.streams x).xlen).sum), s', n)
  counted : ∀ p, D.IsPartition p →
    (D.partitions.map D.partitionStream).count (D.partitionStream p) = 1

/-- The entry holds a job that is routed to the partition. -/
def HoldsJobOf (D : Deployment) (p : Int64) (v : Values) : Prop :=
  ∃ job ev, v.job = some job ∧ job.data = some ev ∧ D.route ev.service = p

/-- Every entry of every partition holds a job that is routed to it. -/
def Routed (D : Deployment) (s : Store) : Prop :=
  ∀ p, D.IsPartition p → ∀ e ∈ (s.streams (D.partitionStream p)).entries, HoldsJobOf D p e.values

/-- Runs in which no operator requeues dead letters. -/
@[reducible] def withoutRequeue (D : Deployment) : Policy (world D) :=
  { Policy.any with start := fun j _ => Job.isRequeue j = false }

section

variable {D : Deployment}

-- ============================================================================
-- The functions
-- ============================================================================

theorem addsRouted_other {evs : List LogEvent} {o : Op}
    (h : ∀ ctx stream maxLen v, o ≠ .redis ctx (.xAdd stream maxLen v)) : AddsRouted D evs o :=
  fun ctx stream maxLen v ho => absurd ho (h ctx stream maxLen v)

/-- The XADD that is built for the envelope of an event. -/
theorem addsRouted_args {evs : List LogEvent} {ev : LogEvent} (hev : ev ∈ evs)
    {envelope : JobEnvelope} (hdata : envelope.data = some ev) {args : XAddArgs} (ctx : Ctx)
    (hargs : buildXAddArgs (streamNameFor D.cfg.queue ev.service) D.cfg.queue.maxLen envelope =
      .ok args) : AddsRouted D evs (.redis ctx (.xAdd args.stream args.maxLen args.values)) := by
  obtain ⟨text, ht, rfl⟩ := buildXAddArgs_ok hargs
  intro ctx' stream maxLen v ho
  cases ho
  exact ⟨envelope, ev, hev, job_jobValues ht, hdata, rfl⟩

theorem yields_buildJobEnvelope (ev : LogEvent) (maxRetries : Int64) :
    (buildJobEnvelope ev maxRetries).Yields fun e => e.data = some ev :=
  fun _ _ => rfl

theorem uses_buildJobEnvelope (ev : LogEvent) (maxRetries : Int64) (evs : List LogEvent) :
    (buildJobEnvelope ev maxRetries).Uses (AddsRouted D evs) :=
  ⟨addsRouted_other (by simp), fun _ => ⟨addsRouted_other (by simp), fun _ => trivial⟩⟩

theorem uses_enqueue (ctx : Ctx) (ev : LogEvent) :
    (enqueue D.cfg.queue ctx ev).Uses (AddsRouted D [ev]) := by
  refine (uses_buildJobEnvelope ev _ [ev]).seq (yields_buildJobEnvelope ev _) ?_
  intro envelope hdata
  cases hargs : buildXAddArgs (streamNameFor D.cfg.queue ev.service) D.cfg.queue.maxLen
      envelope with
  | error err => trivial
  | ok args =>
      refine ⟨addsRouted_args (List.mem_singleton.mpr rfl) hdata ctx hargs, ?_⟩
      intro reply
      cases reply with
      | error err => trivial
      | ok id => trivial

theorem AddsRouted.mono {evs evs' : List LogEvent} {o : Op} (h : AddsRouted D evs o)
    (hsub : ∀ ev ∈ evs, ev ∈ evs') : AddsRouted D evs' o := by
  intro ctx stream maxLen v ho
  obtain ⟨job, ev, hev, hrest⟩ := h ctx stream maxLen v ho
  exact ⟨job, ev, hsub ev hev, hrest⟩

/-- Building a batch writes nothing. -/
theorem uses_buildBatch (evs : List LogEvent) (evs' : List LogEvent) :
    (buildBatch D.cfg.queue evs).Uses (AddsRouted D evs') := by
  induction evs with
  | nil => trivial
  | cons ev evs ih =>
      refine (uses_buildJobEnvelope ev _ evs').bind ?_
      intro envelope
      cases buildXAddArgs (streamNameFor D.cfg.queue ev.service) D.cfg.queue.maxLen envelope with
      | error err => trivial
      | ok args =>
          refine ih.bind ?_
          intro res
          cases res with
          | error err => trivial
          | ok batch => trivial

/-- The arguments of a batch are those of its events. -/
theorem yields_buildBatch (ctx : Ctx) (evs : List LogEvent) :
    (buildBatch D.cfg.queue evs).Yields fun res => ∀ batch, res = .ok batch →
      ∀ args ∈ batch,
        AddsRouted D evs (.redis ctx (.xAdd args.stream args.maxLen args.values)) := by
  induction evs with
  | nil =>
      intro batch hbatch args hargs
      cases hbatch
      cases hargs
  | cons ev evs ih =>
      refine (yields_buildJobEnvelope ev D.cfg.queue.redisMaxRetries).seq ?_
      intro envelope hdata
      cases hargs : buildXAddArgs (streamNameFor D.cfg.queue ev.service) D.cfg.queue.maxLen
          envelope with
      | error err =>
          intro batch hbatch
          cases hbatch
      | ok args =>
          have hfirst : AddsRouted D (ev :: evs)
              (.redis ctx (.xAdd args.stream args.maxLen args.values)) :=
            addsRouted_args (List.mem_cons_self ..) hdata ctx hargs
          refine ih.seq ?_
          intro res hres
          cases res with
          | error err =>
              intro batch hbatch
              cases hbatch
          | ok rest =>
              intro batch hbatch x hx
              cases hbatch
              rcases List.mem_cons.mp hx with rfl | hx
              · exact hfirst
              · exact (hres rest rfl x hx).mono fun e he => List.mem_cons_of_mem _ he

theorem uses_execPipeline {φ : Op → Prop} {ctx : Ctx} {batch : List XAddArgs}
    (h : ∀ args ∈ batch, φ (.redis ctx (.xAdd args.stream args.maxLen args.values))) :
    (execPipeline ctx batch).Uses φ := by
  induction batch with
  | nil => trivial
  | cons args batch ih =>
      refine ⟨h args (List.mem_cons_self ..), fun reply => ?_⟩
      refine (ih fun x hx => h x (List.mem_cons_of_mem _ hx)).bind ?_
      intro replies
      trivial

theorem uses_enqueueBatch (ctx : Ctx) (evs : List LogEvent) :
    (enqueueBatch D.cfg.queue ctx evs).Uses (AddsRouted D evs) := by
  unfold enqueueBatch
  split
  · trivial
  · refine (uses_buildBatch evs evs).seq (yields_buildBatch ctx evs) ?_
    intro res hres
    cases res with
    | error err => trivial
    | ok batch =>
        refine (uses_execPipeline (hres batch rfl)).bind ?_
        intro replies
        cases replies.mapM id with
        | error err => trivial
        | ok ids => trivial

theorem uses_consume (p : Int64) (workerID : String) (ctx : Ctx) (block : Duration) :
    ((consumerOf D.cfg.queue p workerID).consume ctx block).Uses fun o => o =
      Op.redis ctx (.xReadGroup (D.partitionStream p) (D.partitionGroup p) workerID block) := by
  refine ⟨rfl, fun reply => ?_⟩
  match reply with
  | .error .nil => trivial
  | .error (.server msg) => trivial
  | .error .context => trivial
  | .ok [] => trivial
  | .ok (msg :: rest) => trivial

/-- The error of XGROUP CREATE for a group that exists. -/
def busyGroup : RedisError := .server "BUSYGROUP Consumer Group name already exists"

/-- One XGROUP CREATE: the group exists afterwards, and no group is lost. -/
theorem solo_create (t : Nat) (clock : Nat → Instant) (s : Store) (i : Nat)
    (stream group : String) : ∃ (r : Except RedisError Unit) (s' : Store),
      observe D t clock (.redis .background (.xGroupCreateMkStream stream group)) (s, i) =
        some (r, s', i + 1) ∧ (r = .ok () ∨ r = .error busyGroup) ∧ HasGroup s' stream group ∧
      ∀ stream' group', HasGroup s stream' group' → HasGroup s' stream' group' := by
  have hobs : ∀ r s₁, runCmd { clock := clock i } s (.xGroupCreateMkStream stream group) =
        some (r, s₁) →
      observe D t clock (.redis .background (.xGroupCreateMkStream stream group)) (s, i) =
        some (r, s₁.record (some t) (.cmd .background (.xGroupCreateMkStream stream group) r s.now),
          i + 1) := by
    intro r s₁ hrun
    have hans := (answer_background rfl).trans hrun
    unfold observe
    rw [exec_of_answer hans]
    rfl
  cases hcreate : (s.streams stream).xgroupCreate group with
  | none =>
      refine ⟨.error busyGroup, _, hobs _ s ?_, Or.inr rfl, ?_, fun _ _ h => h⟩
      · simp only [runCmd, hcreate]
        rfl
      · unfold Stream.xgroupCreate at hcreate
        split at hcreate
        · next g hg => exact ⟨g, hg⟩
        · cases hcreate
  | some x =>
      obtain ⟨-, -, -, hother, g, hg, -⟩ := Stream.xgroupCreate_eq hcreate
      refine ⟨.ok (), _, hobs _ (s.setStream stream x) ?_, Or.inl rfl, ?_, ?_⟩
      · simp only [runCmd, hcreate]
      · exact ⟨g, by simpa [Store.record, setStream_self] using hg⟩
      · rintro stream' group' ⟨g', hg'⟩
        by_cases hs : stream' = stream
        · subst hs
          by_cases hgrp : group' = group
          · subst hgrp
            exact ⟨g, by simpa [Store.record, setStream_self] using hg⟩
          · refine ⟨g', ?_⟩
            rw [← hother group' hgrp] at hg'
            simpa [Store.record, setStream_self] using hg'
        · refine ⟨g', ?_⟩
          simpa [Store.record, setStream_ne s x hs] using hg'

theorem solo_setupPartitionsFrom (t : Nat) (clock : Nat → Instant) (n k : Nat) (s : Store)
    (i : Nat) : ∃ s',
      (setupPartitionsFrom D.cfg.queue .background n (Int64.ofNat k)).solo (observe D t clock)
        (s, i) = some (.ok (), s', i + n) ∧
      (∀ j, k ≤ j → j < k + n → HasGroup s' (D.partitionStream (Int64.ofNat j))
        (D.partitionGroup (Int64.ofNat j))) ∧
      ∀ stream group, HasGroup s stream group → HasGroup s' stream group := by
  induction n generalizing k s i with
  | zero => exact ⟨s, rfl, fun j h1 h2 => by omega, fun _ _ h => h⟩
  | succ n ih =>
      obtain ⟨r, s₁, hobs, hr, hnew, hkeep⟩ := @solo_create D t clock s i
        (D.partitionStream (Int64.ofNat k)) (D.partitionGroup (Int64.ofNat k))
      obtain ⟨s₂, hsolo, hrest, hkeep'⟩ := ih (k + 1) s₁ (i + 1)
      have hnext : Int64.ofNat k + 1 = Int64.ofNat (k + 1) := (Int64.ofNat_add k 1).symm
      refine ⟨s₂, ?_, ?_, fun stream group h => hkeep' _ _ (hkeep _ _ h)⟩
      · rw [← hnext, Nat.add_assoc, Nat.add_comm 1 n] at hsolo
        refine (Prog.solo_call (S := sig) hobs).trans ?_
        rcases hr with rfl | rfl
        · exact hsolo
        · -- the text of the error holds BUSYGROUP, by evaluation
          exact hsolo
      · intro j hkj hj
        rcases Nat.eq_or_lt_of_le hkj with rfl | hlt
        · exact hkeep' _ _ hnew
        · exact hrest j hlt (by omega)

theorem solo_setupPartitions (t : Nat) (clock : Nat → Instant) (s : Store) : ∃ s' n,
    (setupPartitions D.cfg.queue .background).solo (observe D t clock) (s, 0) =
      some (.ok (), s', n) ∧
    ∀ p, D.IsPartition p → HasGroup s' (D.partitionStream p) (D.partitionGroup p) := by
  obtain ⟨s', hsolo, hgroups, -⟩ := @solo_setupPartitionsFrom D t clock
    D.cfg.queue.partitionCount.toInt.toNat 0 s 0
  refine ⟨s', _, hsolo, ?_⟩
  intro p hp
  obtain ⟨j, hj, rfl⟩ := List.mem_map.mp (D.mem_partitions.mpr hp)
  have hlt := List.mem_range.mp hj
  exact hgroups j (Nat.zero_le j) (by omega)

theorem partitionStream_injective {p q : Int64} (h : D.partitionStream p = D.partitionStream q) :
    p = q :=
  partitionStreamName_injective h

theorem count_partitionStream {p : Int64} (hp : D.IsPartition p) :
    (D.partitions.map D.partitionStream).count (D.partitionStream p) = 1 := by
  apply List.count_eq_one_of_mem
  · exact (partitions_nodup D).map fun _ _ h => partitionStream_injective h
  · exact List.mem_map_of_mem (D.mem_partitions.mpr hp)

/-- Routing is total, and the functions agree on it. -/
theorem covered (D : Deployment) : Covered D where
  range := partitionFor_range D.accepted.queue
  enqueue := uses_enqueue
  enqueueBatch := uses_enqueueBatch
  created := solo_setupPartitions
  read := uses_consume
  length := by
    intro t clock s
    obtain ⟨s', hsolo, -⟩ := @reads_streamLength D t clock s 0
    have hsum : totalLength D s =
        ((D.partitions.map D.partitionStream).map fun x => (s.streams x).xlen).sum := by
      rw [List.map_map]
      rfl
    rw [hsum] at hsolo
    exact ⟨s', _, hsolo⟩
  counted := fun _ => count_partitionStream

-- ============================================================================
-- Runs without requeueing
-- ============================================================================

/-- Nobody has looked up a dead letter. -/
def Log.NoFetch (h : Log) : Prop :=
  ∀ e ∈ h, ∀ ctx stream lo hi reply now, e.ev ≠ .cmd ctx (.xRange stream lo hi) reply now

/-- Without operators there are no look-ups. -/
def NoOperator (c : Conf (world D)) (st : Nat → Option Stage) : Prop :=
  (∀ t, st t ≠ some .operator) ∧ c.store.log.NoFetch

theorem Control.not_operator {x y : Stage} {o : Op} {r : o.Res} (h : Control D x o r y)
    (hx : x ≠ .operator) :
    y ≠ .operator ∧ ∀ ctx stream lo hi, o ≠ .redis ctx (.xRange stream lo hi) := by
  cases h with
  | fetch | requeue | delete | requeued => exact absurd rfl hx
  | @command run ctx c r hjob =>
      refine ⟨by simp, fun ctx' stream lo hi ho => ?_⟩
      cases ho
      exact hjob.elim
  | _ => simp [Deployment.lockCmd]

theorem Log.NoFetch.record {s s₁ : Store} (h : s.log.NoFetch) (hlog : s₁.log = s.log)
    (who : Option Nat) {ev : Ev}
    (hev : ∀ ctx stream lo hi reply now, ev ≠ .cmd ctx (.xRange stream lo hi) reply now) :
    (s₁.record who ev).log.NoFetch := by
  intro x hx
  rcases List.mem_cons.mp hx with rfl | hx
  · exact hev
  · rw [hlog] at hx
    exact h x hx

theorem Log.NoFetch.exec {t : Nat} {ch : Choice} {o : Op} {s s' : Store} {r : o.Res}
    (h : s.log.NoFetch) (hex : exec D t ch o s = some (r, s'))
    (ho : ∀ ctx stream lo hi, o ≠ .redis ctx (.xRange stream lo hi)) : s'.log.NoFetch := by
  cases o with
  | redis ctx c =>
      obtain ⟨s₁, hans, rfl⟩ := exec_redis hex
      refine h.record (answer_frame hans).log _ ?_
      intro ctx' stream lo hi reply now hev
      cases hev
      exact ho _ _ _ _ rfl
  | semAcquire run =>
      simp only [Cluster.exec] at hex
      split at hex
      · cases hex
        exact h
      · split at hex
        · cases hex
          exact h
        · cases hex
  | uuid | invoke e | await e | jobEnd run | note n =>
      cases hex
      exact h.record rfl _ (by simp)
  | _ =>
      cases hex
      exact h

theorem Log.NoFetch.start {t : Nat} {j : Job} {s s' : Store} {p : Program Unit}
    (h : s.log.NoFetch) (hst : startJob D t j s = some (p, s')) : s'.log.NoFetch := by
  cases j with
  | process index =>
      simp only [startJob] at hst
      split at hst
      · cases hst
        exact h.record rfl _ (by simp)
      · cases hst
  | _ =>
      cases hst
      exact h

theorem noOperator_keeps : (control D).Keeps (withoutRequeue D).Permits NoOperator where
  call := by
    intro c st t ch o k r s' x y ⟨hst, hlog⟩ _ hcall _
    have hx : x ≠ .operator := fun hx => hst t (hx ▸ hcall.stage)
    obtain ⟨hy, ho⟩ := hcall.next.not_operator hx
    refine ⟨?_, hlog.exec hcall.exec ho⟩
    intro u
    by_cases hut : u = t
    · rw [hut, Function.update_self]
      simpa using hy
    · rw [Function.update_of_ne hut]
      exact hst u
  ret := by
    intro c st t x ⟨hst, hlog⟩ _ _ _
    refine ⟨fun u => ?_, hlog⟩
    by_cases hut : u = t
    · simp [hut]
    · rw [Function.update_of_ne hut]
      exact hst u
  crash := by
    intro c st t ⟨hst, hlog⟩ _
    refine ⟨fun u => ?_, hlog⟩
    by_cases hut : u = t
    · simp [hut]
    · rw [Function.update_of_ne hut]
      exact hst u
  env := by
    intro c st m s' ⟨hst, hlog⟩ _ hm
    refine ⟨hst, ?_⟩
    cases m with
    | tick ms =>
        cases hm
        exact hlog
    | cancel run =>
        cases hm
        exact hlog.record rfl _ (by simp)
  start := by
    intro c st j p s' ⟨hst, hlog⟩ _ hperm hstart
    refine ⟨j.stage c.store, typed_start hstart, fun u => ?_, hlog.start hstart⟩
    by_cases hut : u = c.next
    · rw [hut, Function.update_self]
      cases j with
      | requeue id stream maxLen => cases hperm
      | process index =>
          simp only [Job.stage]
          split <;> simp
      | _ => simp [Job.stage]
    · rw [Function.update_of_ne hut]
      exact hst u

theorem reachable_noFetch {c : Conf (world D)} (hc : (withoutRequeue D).Reachable Store.init c) :
    c.store.log.NoFetch := by
  have hinit : NoOperator (D := D) (Conf.init Store.init) fun _ => none := by
    refine ⟨by simp, ?_⟩
    intro e he
    cases he
  obtain ⟨st, -, -, hlog⟩ := (control D).sound noOperator_keeps rfl hinit hc
  exact hlog

/-- What is written to a partition is routed to it, by induction over the log: a
    producer chooses the stream by the service, and a copy stays in the stream of the
    message. -/
theorem Valid.routed {h : Log} (hv : Valid D h) (hdlq : dlqPartition D.cfg.queue = none)
    (hfetch : h.NoFetch) {p : Int64} (hp : D.IsPartition p) {id : StreamID} {v : Values}
    (ha : h.Added (D.partitionStream p) id v) : HoldsJobOf D p v := by
  induction h generalizing id v with
  | nil =>
      obtain ⟨e, he, -⟩ := ha
      cases he
  | cons e h ih =>
      have hrest : Log.NoFetch h := fun x hx => hfetch x (List.mem_cons_of_mem _ hx)
      obtain ⟨x, hx, hadds⟩ := ha
      rcases List.mem_cons.mp hx with rfl | hx
      · obtain ⟨t, ctx, maxLen, -, horig⟩ := hv.origin hadds
        generalize hc : Cmd.xAdd (D.partitionStream p) maxLen v = c at horig
        generalize hown : Log.own h t = o at horig
        cases horig with
        | @enqueue _ uuid ev clock text ho hm ht =>
            injection hc with hs _ hvals
            subst hvals
            refine ⟨_, ev, job_jobValues ht, rfl, ?_⟩
            exact (partitionStream_injective hs).symm
        | @copy d err _ text hproc hexh ht =>
            injection hc with hs _ hvals
            subst hvals hown
            obtain rfl : p = D.partition d.run := partitionStream_injective hs
            obtain ⟨v', hadded, hparse⟩ := hv.1.held hproc.started
            obtain ⟨job, ev, hjob, hdata, hroute⟩ := ih hv.1 hrest hadded
            rw [job_of_parseJob hparse] at hjob
            cases hjob
            exact ⟨_, ev, job_jobValues ht, hdata, hroute⟩
        | bury hproc hexh ht =>
            injection hc with hs
            exact absurd hs.symm (dlqPartition_eq_none.mp hdlq p hp)
        | @requeue fid msg rest now entry job stream maxLen' text he hj ht =>
            have hmem : D.fetch fid (.ok (msg :: rest)) now ∈ Log.own h t := by
              rw [hown]
              exact List.mem_cons_self ..
            obtain ⟨y, hy, -, hev⟩ := Log.mem_own.mp hmem
            exact absurd hev (hrest y hy _ _ _ _ _ _)
      · exact ih hv.1 hrest ⟨x, hx, hadds⟩

/-- Routing is total and covered for every accepted configuration, and sticky if the
    dead letter stream does not have the name of a partition stream. -/
theorem routing_covered_sticky (D : Deployment) (hdlq : dlqPartition D.cfg.queue = none) :
    Covered D ∧ ∀ c, (withoutRequeue D).Reachable Store.init c → Routed D c.store := by
  refine ⟨covered D, ?_⟩
  intro c hc p hp e he
  obtain ⟨hv, ht⟩ := reachable_valid hc
  exact hv.routed hdlq (reachable_noFetch hc) hp (ht.entry_added _ e he)

end

/-- A job is processed in partition 0 and its copy fails there until it is given up. -/
def lastFailure (D : Deployment) : List (Action (world D)) :=
  [.start .setupPartitions] ++ steps 0 3 ++
  [.start (.enqueue { LogEvent.zero with service := "a" })] ++
  steps 1 5 { uuid := "j", id := .of 1 0 } ++
  [.start (.poll 0 1)] ++ steps 2 5 ++
  [.start (.process 0)] ++ steps 3 9 { result := some "down", id := .of 2 0 }

theorem routing_covered_sticky_retried : ∃ c,
    dlqPartition (Deployment.ofDefaults true).cfg.queue = none ∧
    (withoutRequeue (.ofDefaults true)).Reachable Store.init c ∧
    (c.store.streams ((Deployment.ofDefaults true).partitionStream 0)).xlen = 2 ∧
    Routed (.ofDefaults true) c.store := by
  have hdlq : dlqPartition (Deployment.ofDefaults true).cfg.queue = none := by decide +kernel
  obtain ⟨c, hc, hlen⟩ : ∃ c, (withoutRequeue (.ofDefaults true)).Reachable Store.init c ∧
      (c.store.streams ((Deployment.ofDefaults true).partitionStream 0)).xlen = 2 :=
    Policy.exists_reachable (lastFailure _) (by decide +kernel) (by decide +kernel)
  exact ⟨c, hdlq, hc, hlen, (routing_covered_sticky _ hdlq).2 c hc⟩

/-- Dead letters go to the stream of partition 0, and the first failure is the last. -/
def dlqAsPartition : Deployment :=
  { Deployment.ofDefaults true with
    accepted := ⟨{ Config.getDefaults with queue := { Config.getDefaults.queue with
      dlqStreamName := "logs:ingest:partition:0", redisMaxRetries := 1 } }, by decide +kernel⟩
    partition_lt := Deployment.ofDefaults_partition_lt true }

/-- A dead letter ends up in a partition stream, where it is no job. -/
theorem dead_letter_in_partition : ∃ c,
    (withoutRequeue dlqAsPartition).Reachable Store.init c ∧ ¬ Routed dlqAsPartition c.store := by
  obtain ⟨c, hc, hbad⟩ : ∃ c, (withoutRequeue dlqAsPartition).Reachable Store.init c ∧
      ∃ e ∈ (c.store.streams (dlqAsPartition.partitionStream 0)).entries,
        e.values.job.isNone = true :=
    Policy.exists_reachable (lastFailure _ ++ steps 3 1) (by decide +kernel) (by decide +kernel)
  refine ⟨c, hc, fun hrouted => ?_⟩
  obtain ⟨e, he, hparse⟩ := hbad
  obtain ⟨job, ev, hjob, -⟩ := hrouted 0 (by decide +kernel) e he
  rw [hjob] at hparse
  cases hparse

end LogPipeline.Cluster
