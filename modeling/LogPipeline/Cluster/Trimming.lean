/-
  LogPipeline.Cluster.Trimming

  What the producers' trimming evicts.

  `Enqueue` and `EnqueueBatch` send every XADD with the configured MAXLEN, and the
  server may evict entries as long as that many are left, whether the group of the
  partition has acknowledged them or not.  `trimming_spares_iff` says when such a
  command cannot hit an entry that is undelivered or pending: exactly when the
  backlog of the partition, the entries stored from the oldest such entry on, is
  shorter than MAXLEN.  Nothing keeps it that short (`trimming_evicts`).
-/

import LogPipeline.Cluster.Routing

namespace LogPipeline.Cluster

open Conc Go Redis Queue Bootstrap

-- ============================================================================
-- The property
-- ============================================================================

/-- No entry of a partition that is undelivered or pending is lost. -/
def KeepsLive (D : Deployment) (s s' : Store) : Prop :=
  ∀ p, D.IsPartition p → ∀ e,
    (s.streams (D.partitionStream p)).Outstanding (D.partitionGroup p) e →
    (s'.streams (D.partitionStream p)).Outstanding (D.partitionGroup p) e

/-- The entries of the partition from the oldest that is undelivered or pending
    on. -/
def backlog (D : Deployment) (s : Store) (p : Int64) : Nat :=
  (s.streams (D.partitionStream p)).backlog (D.partitionGroup p)

section

variable {D : Deployment}

-- ============================================================================
-- One XADD
-- ============================================================================

/-- A command that replaces the stream of one partition loses nothing of the
    others. -/
theorem keepsLive_setStream {s : Store} {p : Int64} (hp : D.IsPartition p) {x : Stream Values} :
    KeepsLive D s (s.setStream (D.partitionStream p) x) ↔
      ∀ e, (s.streams (D.partitionStream p)).Outstanding (D.partitionGroup p) e →
        x.Outstanding (D.partitionGroup p) e := by
  constructor
  · intro h e he
    have hkept := h p hp e he
    rwa [setStream_self] at hkept
  · intro h q _ e he
    by_cases hqp : q = p
    · rw [hqp] at he ⊢
      rw [setStream_self]
      exact h e he
    · rw [setStream_ne s x fun heq => hqp (partitionStream_injective heq)]
      exact he

/-- Whatever the server evicts within MAXLEN, the backlog is spared exactly if it is
    shorter. -/
theorem spares_all_iff {s : Store} {p : Int64} {maxLen : Int64} (hpos : 0 < maxLen) :
    (∀ trim, TrimOk maxLen (s.streams (D.partitionStream p)).xlen trim →
      backlog D s p = 0 ∨ trim + backlog D s p ≤ (s.streams (D.partitionStream p)).xlen) ↔
      (backlog D s p : Int) < maxLen.toInt := by
  have hpos' : 0 < maxLen.toInt := Int64.lt_iff_toInt_lt.mp hpos
  have hle : backlog D s p ≤ (s.streams (D.partitionStream p)).xlen := by
    have := (s.streams (D.partitionStream p)).length_done (D.partitionGroup p)
    unfold backlog
    omega
  constructor
  · intro h
    by_contra hge
    -- the server may evict all but MAXLEN entries
    have htrim : TrimOk maxLen (s.streams (D.partitionStream p)).xlen
        ((s.streams (D.partitionStream p)).xlen + 1 - maxLen.toInt.toNat) :=
      Or.inr ⟨hpos, by omega⟩
    have := h _ htrim
    omega
  · intro hlt trim htrim
    rcases htrim with rfl | ⟨-, hmax⟩
    · omega
    · omega

/-- There is always an id for the next entry. -/
theorem exists_lt_id (id : StreamID) : ∃ id', id < id' :=
  ⟨⟨id.ms, id.seq + 1, id.ms_lt⟩, StreamID.lt_def.mpr (Or.inr ⟨rfl, Nat.lt_succ_self _⟩)⟩

/-- An XADD of a producer, executed or not, spares the backlog for every choice of the
    server exactly if the backlog is shorter than MAXLEN. -/
theorem keepsLive_exec_iff {t : Nat} {s : Store} {p : Int64} (hp : D.IsPartition p)
    {maxLen : Int64} (hpos : 0 < maxLen) {v : Values} :
    (∀ ch r s', exec D t ch (.redis .background (.xAdd (D.partitionStream p) maxLen v)) s =
      some (r, s') → KeepsLive D s s') ↔ (backlog D s p : Int) < maxLen.toInt := by
  rw [← spares_all_iff hpos]
  constructor
  · intro h trim htrim
    obtain ⟨id, hid⟩ := exists_lt_id (s.streams (D.partitionStream p)).lastID
    have hrun := @runCmd_xAdd_of { id := id, trim := trim } s _ _ v hid htrim
    have hans := (answer_background rfl).trans hrun
    have hkeep := h _ _ _ (exec_of_answer hans)
    exact (Stream.spares_iff _ _ id hid v trim).mp ((keepsLive_setStream hp).mp hkeep)
  · intro h ch r s' hex
    obtain ⟨s₁, hans, rfl⟩ := exec_redis hex
    show KeepsLive D s s₁
    rcases answer_cases hans with ⟨hdone, -⟩ | ⟨-, -, -, -, rfl⟩ | ⟨-, -, hrun⟩
    · exact hdone.elim
    · exact fun _ _ _ he => he
    · obtain ⟨-, htrim, hid, rfl⟩ := runCmd_xAdd hrun
      exact (keepsLive_setStream hp).mpr ((Stream.spares_iff _ _ _ hid v _).mpr (h _ htrim))

-- ============================================================================
-- Every run
-- ============================================================================

/-- Without operators the background XADDs are those of the producers: to a partition
    stream, with the configured MAXLEN. -/
theorem producer_xAdd {c : Conf (world D)} (hc : (withoutRequeue D).Reachable Store.init c)
    {t : Nat} {stream : String} {maxLen : Int64} {v : Values}
    (hcall : nextCall c t = some (.redis .background (.xAdd stream maxLen v))) :
    ∃ p, D.IsPartition p ∧ stream = D.partitionStream p ∧ maxLen = D.cfg.queue.maxLen := by
  obtain ⟨k, htask⟩ := nextCall_eq_some.mp hcall
  have horig : Origin D (c.store.log.own t) .background (.xAdd stream maxLen v) :=
    reachable_due hc htask
  have hfetch := reachable_noFetch hc
  generalize hcmd : Cmd.xAdd stream maxLen v = cmd at horig
  generalize hctx : Ctx.background = ctx at horig
  generalize hown : c.store.log.own t = o at horig
  cases horig with
  | @enqueue _ uuid ev clock text ho hm ht =>
      injection hcmd with hs hm
      exact ⟨_, partitionFor_range D.accepted.queue ev.service, hs, hm⟩
  | copy hproc hexh ht => cases hctx
  | bury hproc hexh ht => cases hctx
  | @requeue id msg rest now entry job stream maxLen' text he hj ht =>
      have hmem : D.fetch id (.ok (msg :: rest)) now ∈ c.store.log.own t := by
        rw [hown]
        exact List.mem_cons_self ..
      obtain ⟨y, hy, -, hev⟩ := Log.mem_own.mp hmem
      exact absurd hev (hfetch y hy _ _ _ _ _ _)

/-- In every run, the next XADD of a producer evicts nothing that is undelivered or
    pending, whatever the server chooses, exactly if the backlog of its partition is
    shorter than MAXLEN. -/
theorem trimming_spares_iff {c : Conf (world D)}
    (hc : (withoutRequeue D).Reachable Store.init c) {t : Nat} {stream : String}
    {maxLen : Int64} {v : Values}
    (hcall : nextCall c t = some (.redis .background (.xAdd stream maxLen v))) :
    ∃ p, D.IsPartition p ∧ stream = D.partitionStream p ∧
      ((∀ ch c', c.apply (.step t ch) = some c' → KeepsLive D c.store c'.store) ↔
        (backlog D c.store p : Int) < D.cfg.queue.maxLen.toInt) := by
  obtain ⟨p, hp, rfl, rfl⟩ := producer_xAdd hc hcall
  obtain ⟨k, htask⟩ := nextCall_eq_some.mp hcall
  refine ⟨p, hp, rfl, ?_⟩
  have hpos : 0 < D.cfg.queue.maxLen := D.accepted.queue.maxLen
  rw [← keepsLive_exec_iff hp hpos]
  constructor
  · intro h ch r s' hex
    exact h ch _ (Conf.apply_call htask hex)
  · intro h ch c' happ
    rcases Conf.apply_cases happ with ⟨t', ch', o, k', r, s', ha, hk, hex, rfl⟩ |
      ⟨t', ha | ⟨ch', u, ha, hu⟩, rfl⟩ | ⟨e, s', ha, -⟩ | ⟨j, q, s', ha, -⟩
    · cases ha
      rw [htask] at hk
      cases hk
      exact h ch r s' hex
    · cases ha
    · exact fun _ _ _ he => he
    · cases ha
    · cases ha

end

/-- Streams are trimmed to one entry, or rather to no less than one. -/
def shortStreams : Deployment :=
  { Deployment.ofDefaults true with
    accepted := ⟨{ Config.getDefaults with queue := { Config.getDefaults.queue with
      maxLen := 1 } }, by decide +kernel⟩
    partition_lt := Deployment.ofDefaults_partition_lt true }

/-- Two jobs for partition 0; the second is about to be added. -/
def secondJob (D : Deployment) : List (Action (world D)) :=
  [.start .setupPartitions] ++ steps 0 3 ++
  [.start (.enqueue { LogEvent.zero with service := "a" })] ++
  steps 1 5 { uuid := "j", id := .of 1 0 } ++
  [.start (.enqueue { LogEvent.zero with service := "a" })] ++ steps 2 2 { uuid := "k" }

/-- The stream of an XADD that a producer is about to issue. -/
def Op.producesTo : Op → Option String
  | .redis .background (.xAdd stream _ _) => some stream
  | _ => none

theorem Op.producesTo_eq_some {o : Op} {stream : String} (h : o.producesTo = some stream) :
    ∃ maxLen v, o = .redis .background (.xAdd stream maxLen v) := by
  unfold Op.producesTo at h
  split at h
  · cases h
    exact ⟨_, _, rfl⟩
  · cases h

/-- With the default MAXLEN the first job is safe. -/
theorem trimming_spares_second : ∃ (c : Conf (world (.ofDefaults true))),
    (withoutRequeue (.ofDefaults true)).Reachable Store.init c ∧
    backlog (.ofDefaults true) c.store 0 = 1 ∧
    ∀ ch c', c.apply (.step 2 ch) = some c' → KeepsLive (.ofDefaults true) c.store c'.store := by
  obtain ⟨c, hc, hnext, hback⟩ : ∃ c : Conf (world (.ofDefaults true)),
      (withoutRequeue (.ofDefaults true)).Reachable Store.init c ∧
      (nextCall c 2).bind Op.producesTo =
        some ((Deployment.ofDefaults true).partitionStream 0) ∧
      backlog (.ofDefaults true) c.store 0 = 1 :=
    Policy.exists_reachable (secondJob _) (by decide +kernel) (by decide +kernel)
  obtain ⟨o, ho, hto⟩ := Option.bind_eq_some_iff.mp hnext
  obtain ⟨maxLen, v, rfl⟩ := Op.producesTo_eq_some hto
  obtain ⟨p, -, hs, hiff⟩ := trimming_spares_iff hc ho
  obtain rfl : 0 = p := partitionStream_injective hs
  refine ⟨c, hc, hback, hiff.mpr ?_⟩
  rw [hback]
  decide +kernel

/-- The XADD of the second job evicts the first, which nobody has read. -/
theorem trimming_evicts : ∃ (c c' : Conf (world shortStreams)) (ch : Choice) (e : Entry Values),
    (withoutRequeue shortStreams).Reachable Store.init c ∧
    (nextCall c 2).bind Op.producesTo = some (shortStreams.partitionStream 0) ∧
    c.apply (.step 2 ch) = some c' ∧
    (c.store.streams (shortStreams.partitionStream 0)).Outstanding
      (shortStreams.partitionGroup 0) e ∧
    e ∉ (c'.store.streams (shortStreams.partitionStream 0)).entries := by
  obtain ⟨c, hc, hnext, c', hc', e, he, hlive, hgone⟩ : ∃ c : Conf (world shortStreams),
      (withoutRequeue shortStreams).Reachable Store.init c ∧
      (nextCall c 2).bind Op.producesTo = some (shortStreams.partitionStream 0) ∧
      ∃ c' ∈ c.apply (.step 2 { id := .of 2 0, trim := 1 }),
      ∃ e ∈ (c.store.streams (shortStreams.partitionStream 0)).entries,
        (c.store.streams (shortStreams.partitionStream 0)).Live
          (shortStreams.partitionGroup 0) e.id ∧
        (c'.store.streams (shortStreams.partitionStream 0)).stored e.id = false :=
    Policy.exists_reachable (secondJob _) (by decide +kernel) (by decide +kernel)
  refine ⟨c, c', _, e, hc, hnext, hc', ⟨he, hlive⟩, ?_⟩
  intro hmem
  have hstored : (c'.store.streams (shortStreams.partitionStream 0)).stored e.id = true := by
    unfold Stream.stored
    exact List.any_eq_true.mpr ⟨e, hmem, decide_eq_true rfl⟩
  rw [hgone] at hstored
  cases hstored

end LogPipeline.Cluster
