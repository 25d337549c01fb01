/-
  LogPipeline.Ingestion.Metrics

  What the throttler sees of the queue.

  `updateMetrics` is run alone against the server: it only reads, so the streams
  it sees are those it started with (`reads_updateMetrics`).  The depth is the
  total of all partitions, but the pending figures are those of the one partition
  the throttler's consumer is bound to, so they cover the queue only while nothing
  is pending in the others (`metrics_cover_iff`).

  The depth also counts entries that were acknowledged long ago: when the queue is
  drained the throttler allows again only if few enough entries are still stored
  (`recovers_iff`).
-/

import LogPipeline.Cluster.Runs
import LogPipeline.Ingestion.Throttler
import Mathlib.Algebra.BigOperators.Group.List.Basic
import Mathlib.Algebra.Order.BigOperators.Group.List

namespace LogPipeline.Ingestion

open Conc Go Redis Cluster Queue Bootstrap

-- ============================================================================
-- The state of the queue
-- ============================================================================

/-- The pending messages of a partition. -/
def pendingIn (D : Deployment) (s : Store) (p : Int64) : List StreamID :=
  (s.streams (D.partitionStream p)).pendingIDs (D.partitionGroup p)

/-- The length of all partition streams. -/
def totalLength (D : Deployment) (s : Store) : Nat :=
  (D.partitions.map fun p => (s.streams (D.partitionStream p)).xlen).sum

/-- The number of pending messages in all partitions. -/
def totalPending (D : Deployment) (s : Store) : Nat :=
  (D.partitions.map fun p => (pendingIn D s p).length).sum

/-- The age of a message in whole seconds. -/
def messageAge (now : Instant) (id : StreamID) : Int :=
  (((now.ns / 1000000 : Nat) : Int) - id.ms).tdiv 1000

/-- Nothing is left to do: every entry of every partition has been delivered, and
    none is pending. -/
def Drained (D : Deployment) (s : Store) : Prop :=
  ∀ p ∈ D.partitions, pendingIn D s p = [] ∧ ∀ e ∈ (s.streams (D.partitionStream p)).entries,
    ¬ (s.streams (D.partitionStream p)).Undelivered (D.partitionGroup p) e.id

-- by the list of partitions, not by all of `Int64`
instance (D : Deployment) (s : Store) : Decidable (Drained D s) :=
  List.decidableBAll _ D.partitions

/-- The metrics describe all partitions. -/
structure Covers (D : Deployment) (s : Store) (now : Instant) (m : ThrottlerMetrics) : Prop where
  depth : m.streamDepth.toInt = totalLength D s
  pending : m.pendingCount.toInt = totalPending D s
  age_zero : (∀ p ∈ D.partitions, pendingIn D s p = []) → m.oldestMessageAge = 0
  age_mem : (∃ p ∈ D.partitions, pendingIn D s p ≠ []) →
    ∃ p ∈ D.partitions, ∃ id ∈ pendingIn D s p, m.oldestMessageAge.toInt = messageAge now id
  age_le : ∀ p ∈ D.partitions, ∀ id ∈ pendingIn D s p,
    messageAge now id ≤ m.oldestMessageAge.toInt

-- ============================================================================
-- Reading the server
-- ============================================================================

/-- Calls of task `t` that the server answers, all of them.  The second component
    counts the calls; `clock i` is the host clock at call `i`. -/
def observe (D : Deployment) (t : Nat) (clock : Nat → Instant) (o : sig.Op) (x : Store × Nat) :
    Option (sig.Res o × (Store × Nat)) :=
  (exec D t { clock := clock x.2 } o x.1).map fun r => (r.1, r.2, x.2 + 1)

/-- The outcome of a program that only reads: the streams are as they were. -/
def Reads {α : Type} (D : Deployment) (t : Nat) (clock : Nat → Instant) (p : Program α)
    (s : Store) (i : Nat) (a : α) (j : Nat) : Prop :=
  ∃ s', p.solo (observe D t clock) (s, i) = some (a, s', j) ∧ s'.streams = s.streams

section

variable {D : Deployment} {t : Nat} {clock : Nat → Instant} {α β : Type}

theorem Reads.ret (a : α) (s : Store) (i : Nat) : Reads D t clock (.ret a) s i a i :=
  ⟨s, rfl, rfl⟩

theorem Reads.bind {p : Program α} {f : α → Program β} {s : Store} {i j k : Nat} {a : α} {b : β}
    (hp : Reads D t clock p s i a j)
    (hf : ∀ s', s'.streams = s.streams → Reads D t clock (f a) s' j b k) :
    Reads D t clock (p.bind f) s i b k := by
  obtain ⟨s₁, hsolo, hs₁⟩ := hp
  obtain ⟨s₂, hsolo₂, hs₂⟩ := hf s₁ hs₁
  refine ⟨s₂, ?_, hs₂.trans hs₁⟩
  rw [Prog.solo_bind, hsolo]
  exact hsolo₂

/-- The clock is read. -/
theorem Reads.now (s : Store) (i : Nat) : Reads D t clock (call .now) s i (clock i) (i + 1) :=
  ⟨s, rfl, rfl⟩

/-- A command that leaves the streams alone. -/
theorem Reads.redis {c : Cmd} {s s₁ : Store} {i : Nat} {r : Except RedisError c.Reply}
    (hrun : runCmd { clock := clock i } s c = some (r, s₁)) (hs : s₁.streams = s.streams) :
    Reads D t clock (redis .background c) s i r (i + 1) := by
  have hans : answer { clock := clock i } .background c s = some (r, s₁) :=
    (answer_background rfl).trans hrun
  have hobs : observe D t clock (.redis .background c) (s, i) =
      some (r, s₁.record (some t) (.cmd .background c r s.now), i + 1) := by
    unfold observe
    rw [exec_of_answer hans]
    rfl
  refine ⟨s₁.record (some t) (.cmd .background c r s.now), ?_, hs⟩
  exact (Prog.solo_perform (S := sig) (observe D t clock) (.redis .background c) (s, i)).trans hobs

theorem Reads.xLen (stream : String) (s : Store) (i : Nat) :
    Reads D t clock (Cluster.redis .background (.xLen stream)) s i
      (.ok (s.streams stream).xlen) (i + 1) :=
  Reads.redis rfl rfl

theorem Reads.xPending {stream group : String} {s : Store} {count : Nat}
    {lower : Option StreamID} (hx : (s.streams stream).xpending group = some (count, lower))
    (i : Nat) : Reads D t clock (Cluster.redis .background (.xPending stream group)) s i
      (.ok ⟨count, (lower.map (·.toString)).getD ""⟩) (i + 1) := by
  have hrun : runCmd { clock := clock i } s (.xPending stream group) =
      some (.ok ⟨count, (lower.map (·.toString)).getD ""⟩, s) := by
    simp only [runCmd, hx]
  exact Reads.redis hrun rfl

theorem Reads.xPending_noGroup {stream group : String} {s : Store}
    (hx : (s.streams stream).xpending group = none) (i : Nat) :
    Reads D t clock (Cluster.redis .background (.xPending stream group)) s i
      (.error (noGroup stream group)) (i + 1) := by
  have hrun : runCmd { clock := clock i } s (.xPending stream group) =
      some (.error (noGroup stream group), s) := by
    simp only [runCmd, hx]
  exact Reads.redis hrun rfl

-- ============================================================================
-- Depth
-- ============================================================================

/-- The loop of `StreamLength` over the partitions `k, .., k + n - 1`. -/
theorem reads_streamLengthFrom (n k : Nat) (total : Int64) (s : Store) (i : Nat) :
    Reads D t clock (streamLengthFrom D.cfg.queue .background n (Int64.ofNat k) total) s i
      (.ok (total + Int64.ofNat ((List.range' k n).map fun j =>
        (s.streams (D.partitionStream (Int64.ofNat j))).xlen).sum)) (i + n) := by
  induction n generalizing k total s i with
  | zero =>
      have hzero : total + Int64.ofNat 0 = total := Int64.add_zero total
      simp only [List.range'_zero, List.map_nil, List.sum_nil, hzero]
      exact Reads.ret _ s i
  | succ n ih =>
      refine Reads.bind (Reads.xLen _ s i) ?_
      intro s' hs'
      have hnext : Int64.ofNat k + 1 = Int64.ofNat (k + 1) := (Int64.ofNat_add k 1).symm
      have hrest := ih (k + 1) (total + Int64.ofNat
        (s.streams (D.partitionStream (Int64.ofNat k))).xlen) s' (i + 1)
      rw [hs', Int64.add_assoc, ← Int64.ofNat_add] at hrest
      rw [List.range'_succ, List.map_cons, List.sum_cons, Nat.add_comm n 1, ← Nat.add_assoc]
      rw [← hnext] at hrest
      exact hrest

theorem reads_streamLength (s : Store) (i : Nat) :
    Reads D t clock (streamLength D.cfg.queue .background) s i
      (.ok (Int64.ofNat (totalLength D s))) (i + D.cfg.queue.partitionCount.toInt.toNat) := by
  have h := @reads_streamLengthFrom D t clock D.cfg.queue.partitionCount.toInt.toNat 0 0 s i
  rw [Int64.zero_add] at h
  unfold totalLength Deployment.partitions
  rw [List.map_map, List.range_eq_range']
  exact h

-- ============================================================================
-- Pending messages
-- ============================================================================

/-- What `GetPendingInfo` makes of the pending ids of a group. -/
def pendingInfo (ids : List StreamID) (now : Instant) : Int64 × Int64 :=
  match ids with
  | [] => (0, 0)
  | id :: rest => (Int64.ofNat (rest.length + 1), Consumer.ageOf id.toString now)

theorem pendingInfo_cons (id : StreamID) (rest : List StreamID) (now : Instant) :
    pendingInfo (id :: rest) now =
      (Int64.ofNat (rest.length + 1), Consumer.ageOf id.toString now) := rfl

/-- How many calls it makes for them. -/
def pendingCalls : List StreamID → Nat
  | [] => 1
  | _ :: _ => 2

theorem toString_ne_empty (id : StreamID) : id.toString ≠ "" := by
  intro h
  have hlist := congrArg String.toList h
  unfold StreamID.toString at hlist
  rw [String.toList_append, String.toList_append, Nat.toList_repr] at hlist
  have hne : Nat.toDigits 10 id.ms ≠ [] := Nat.toDigits_ne_nil
  simp [hne] at hlist

/-- The timestamp part of an id is read back. -/
theorem ageOf_toString (id : StreamID) (now : Instant) :
    (Consumer.ageOf id.toString now).toInt = messageAge now id := by
  have hdash : '-' ∉ (Nat.repr id.ms).toList := by
    rw [Nat.toList_repr]
    intro hmem
    exact absurd (toDigits_isDigit id.ms '-' hmem) (by decide)
  have hdashed : "-" = String.singleton '-' := by decide
  have hhead : (split id.toString '-').head? = some (Nat.repr id.ms) := by
    rw [StreamID.toString, hdashed]
    exact split_head hdash
  obtain ⟨rest, hsplit⟩ : ∃ rest, split id.toString '-' = Nat.repr id.ms :: rest := by
    cases hs : split id.toString '-' with
    | nil =>
        rw [hs] at hhead
        cases hhead
    | cons a rest =>
        rw [hs] at hhead
        cases hhead
        exact ⟨rest, rfl⟩
  have hms := id.ms_lt
  have hns := now.ns_lt
  have hparse : parseInt (Nat.repr id.ms) = some (Int64.ofNat id.ms) := by
    rw [parseInt_repr, signed]
    simp only [Bool.false_eq_true, if_false]
    rw [if_pos (by omega)]
    rfl
  have hsub : (now.unixMilli - Int64.ofNat id.ms).toInt =
      ((now.ns / 1000000 : Nat) : Int) - id.ms := by
    rw [Int64.toInt_sub, now.unixMilli_toInt, Int64.toInt_ofNat_of_lt hms]
    apply Int.bmod_eq_of_le
    · omega
    · omega
  have hthousand : (1000 : Int64).toInt = 1000 := by decide
  unfold Consumer.ageOf messageAge
  rw [hsplit]
  simp only [hparse]
  rw [Int64.toInt_div_of_ne_left, hsub, hthousand]
  intro hmin
  have := congrArg Int64.toInt hmin
  rw [hsub, show Int64.minValue.toInt = -2 ^ 63 by decide] at this
  omega

/-- `GetPendingInfo` with a group that exists. -/
theorem reads_getPendingInfo {c : Consumer} {s : Store} {g : Group} {ids : List StreamID}
    (hg : (s.streams c.streamName).groups c.consumerGroup = some g)
    (hids : (s.streams c.streamName).pendingIDs c.consumerGroup = ids)
    (hlen : ids.length < 2 ^ 63) (i : Nat) :
    Reads D t clock (c.getPendingInfo .background) s i (.ok (pendingInfo ids (clock (i + 1))))
      (i + pendingCalls ids) := by
  have hx := Stream.xpending_eq hg
  rw [hids] at hx
  have hread := @Reads.xPending D t clock _ _ s _ _ hx i
  cases ids with
  | nil =>
      refine hread.bind ?_
      intro s' _
      dsimp only
      rw [if_neg (by decide)]
      exact Reads.ret _ s' _
  | cons id rest =>
      have hpos : Int64.ofNat (id :: rest).length > 0 := by
        rw [gt_iff_lt, Int64.lt_iff_toInt_lt, Int64.toInt_ofNat_of_lt hlen]
        have hzero : (0 : Int64).toInt = 0 := by decide
        rw [hzero, List.length_cons]
        omega
      refine hread.bind ?_
      intro s' _
      dsimp only
      rw [if_pos ⟨hpos, toString_ne_empty id⟩, pendingInfo_cons]
      refine (Reads.now s' (i + 1)).bind ?_
      intro s'' _
      exact Reads.ret _ s'' _

/-- `GetPendingInfo` with a group that does not exist. -/
theorem reads_getPendingInfo_noGroup (D : Deployment) (t : Nat) (clock : Nat → Instant)
    (c : Consumer) : ∃ r : Except String (Int64 × Int64), r.toOption.getD (0, 0) = (0, 0) ∧
      ∀ s i, (s.streams c.streamName).groups c.consumerGroup = none →
        Reads D t clock (c.getPendingInfo .background) s i r (i + 1) := by
  have hread : ∀ s i, (s.streams c.streamName).groups c.consumerGroup = none →
      Reads D t clock (redis .background (.xPending c.streamName c.consumerGroup)) s i
        (.error (noGroup c.streamName c.consumerGroup)) (i + 1) := by
    intro s i hg
    exact Reads.xPending_noGroup (by simp [Stream.xpending, hg]) i
  by_cases herr : noGroup c.streamName c.consumerGroup = .nil ∨
      (noGroup c.streamName c.consumerGroup).text = "NOGROUP"
  · refine ⟨.ok (0, 0), rfl, fun s i hg => ?_⟩
    refine (hread s i hg).bind ?_
    intro s' _
    dsimp only
    rw [if_pos herr]
    exact Reads.ret _ s' _
  · refine ⟨.error ("failed to get pending info: " ++ (noGroup c.streamName c.consumerGroup).text),
      rfl, fun s i hg => ?_⟩
    refine (hread s i hg).bind ?_
    intro s' _
    dsimp only
    rw [if_neg herr]
    exact Reads.ret _ s' _

-- ============================================================================
-- The update
-- ============================================================================

/-- The throttler `SetupThrottler` builds when it is enabled. -/
def deployed (D : Deployment) (throttlerConsumerID : String) : Throttler where
  producer := D.cfg.queue
  consumer := some (setupConsumer D.cfg.queue (setupDLQ D.cfg.queue) throttlerConsumerID)
  config := D.cfg.ingestion.throttler

theorem setupThrottler_eq (hen : D.cfg.ingestion.throttler.enabled = true) (cid : String) :
    setupThrottler D.cfg cid = some (deployed D cid) := by
  unfold setupThrottler
  rw [if_pos hen]
  rfl

/-- The position of the clock reading for the age: after one XLEN for each
    partition and the XPENDING. -/
def ageCall (D : Deployment) : Nat := D.cfg.queue.partitionCount.toInt.toNat + 1

/-- The partition the throttler's consumer is bound to. -/
def own (D : Deployment) : Int64 := D.cfg.queue.partitionID

/-- The pending figures of a group that exists. -/
theorem reads_getPendingMetrics {s s' : Store} {g : Group} (cid : String)
    (hg : (s.streams (D.partitionStream (own D))).groups (D.partitionGroup (own D)) = some g)
    (hlen : (pendingIn D s (own D)).length < 2 ^ 63) (hs' : s'.streams = s.streams) :
    Reads D t clock ((deployed D cid).getPendingMetrics .background) s'
      D.cfg.queue.partitionCount.toInt.toNat
      (.ok (pendingInfo (pendingIn D s (own D)) (clock (ageCall D))))
      (D.cfg.queue.partitionCount.toInt.toNat + pendingCalls (pendingIn D s (own D))) := by
  refine reads_getPendingInfo (g := g) ?_ ?_ hlen _
  · rw [hs']
    exact hg
  · rw [hs']
    rfl

/-- The metrics after an update, by what `GetPendingInfo` returns. -/
theorem reads_updateMetrics {s : Store} {r : Except String (Int64 × Int64)} {j : Nat}
    (cid : String) (m₀ : ThrottlerMetrics)
    (hpending : ∀ s', s'.streams = s.streams → Reads D t clock
      ((deployed D cid).getPendingMetrics .background) s'
      D.cfg.queue.partitionCount.toInt.toNat r j) :
    Reads D t clock ((deployed D cid).updateMetrics m₀) s 0
      ⟨Int64.ofNat (totalLength D s), (r.toOption.getD (0, 0)).1, (r.toOption.getD (0, 0)).2,
        (clock j).unix⟩ (j + 1) := by
  have hdepth := @reads_streamLength D t clock s 0
  rw [Nat.zero_add] at hdepth
  refine hdepth.bind ?_
  intro s₁ hs₁
  refine (hpending s₁ hs₁).bind ?_
  intro s₂ _
  cases r with
  | error err =>
      refine (Reads.now s₂ j).bind ?_
      intro s₃ _
      exact Reads.ret _ s₃ _
  | ok info =>
      refine (Reads.now s₂ j).bind ?_
      intro s₃ _
      exact Reads.ret _ s₃ _

/-- The metrics after an update, if the own partition has its group. -/
theorem reads_updateMetrics_group {s : Store} {g : Group} (cid : String) (m₀ : ThrottlerMetrics)
    (hg : (s.streams (D.partitionStream (own D))).groups (D.partitionGroup (own D)) = some g)
    (hlen : (pendingIn D s (own D)).length < 2 ^ 63) :
    ∃ j updated, Reads D t clock ((deployed D cid).updateMetrics m₀) s 0
      ⟨Int64.ofNat (totalLength D s), (pendingInfo (pendingIn D s (own D)) (clock (ageCall D))).1,
        (pendingInfo (pendingIn D s (own D)) (clock (ageCall D))).2, updated⟩ j :=
  ⟨_, _, reads_updateMetrics cid m₀ fun _ => reads_getPendingMetrics cid hg hlen⟩

-- ============================================================================
-- Coverage
-- ============================================================================

theorem own_mem (D : Deployment) : own D ∈ D.partitions :=
  D.mem_partitions.mpr
    ⟨D.accepted.queue.partitionID_nonneg, D.accepted.queue.partitionID_lt⟩

theorem partitions_nodup (D : Deployment) : D.partitions.Nodup := by
  have hcount := Int64.toInt_lt D.cfg.queue.partitionCount
  refine List.Nodup.map_on ?_ List.nodup_range
  intro x hx y hy hxy
  have hx := List.mem_range.mp hx
  have hy := List.mem_range.mp hy
  have := congrArg Int64.toInt hxy
  rw [Int64.toInt_ofNat_of_lt (by omega), Int64.toInt_ofNat_of_lt (by omega)] at this
  omega

/-- Nothing is pending in the other partitions exactly if the total is that of the
    own one. -/
theorem totalPending_eq_iff (D : Deployment) (s : Store) :
    totalPending D s = (pendingIn D s (own D)).length ↔
      ∀ p ∈ D.partitions, p ≠ own D → pendingIn D s p = [] := by
  have hsum := List.sum_map_erase (fun p => (pendingIn D s p).length) (own_mem D)
  have hzero : ((D.partitions.erase (own D)).map fun p => (pendingIn D s p).length).sum = 0 ↔
      ∀ p ∈ D.partitions, p ≠ own D → pendingIn D s p = [] := by
    rw [List.sum_eq_zero_iff]
    constructor
    · intro h p hp hne
      have hmem := (partitions_nodup D).mem_erase_iff.mpr ⟨hne, hp⟩
      exact List.length_eq_zero_iff.mp (h _ (List.mem_map_of_mem hmem))
    · intro h n hn
      obtain ⟨p, hp, rfl⟩ := List.mem_map.mp hn
      obtain ⟨hne, hp⟩ := (partitions_nodup D).mem_erase_iff.mp hp
      rw [h p hp hne, List.length_nil]
  rw [← hzero]
  unfold totalPending
  omega

theorem messageAge_anti (now : Instant) {a b : StreamID} (h : a ≤ b) :
    messageAge now b ≤ messageAge now a := by
  have hms : a.ms ≤ b.ms := by
    rcases StreamID.le_def.mp h with hlt | ⟨heq, -⟩
    · exact hlt.le
    · exact heq.le
  unfold messageAge
  exact Int.tdiv_le_tdiv (by decide) (by omega)

theorem pendingInfo_count {ids : List StreamID} (now : Instant) (hlen : ids.length < 2 ^ 63) :
    (pendingInfo ids now).1.toInt = ids.length := by
  cases ids with
  | nil => rfl
  | cons id rest => exact Int64.toInt_ofNat_of_lt hlen

/-- The first pending id gives the largest age. -/
theorem messageAge_le_pendingInfo {ids : List StreamID} (now : Instant)
    (hsorted : ids.Pairwise (· < ·)) {id : StreamID} (hid : id ∈ ids) :
    messageAge now id ≤ (pendingInfo ids now).2.toInt := by
  cases ids with
  | nil => cases hid
  | cons first rest =>
      rw [pendingInfo_cons, ageOf_toString]
      apply messageAge_anti
      rcases List.mem_cons.mp hid with rfl | hid
      · exact le_refl _
      · exact ((List.pairwise_cons.mp hsorted).1 id hid).le

/-- The metrics describe the whole queue exactly if nothing is pending outside of
    the throttler's own partition. -/
theorem metrics_cover_iff (D : Deployment) (hen : D.cfg.ingestion.throttler.enabled = true)
    (cid : String) (t : Nat) (clock : Nat → Instant) (s : Store) (m₀ : ThrottlerMetrics)
    (hgroup : ((s.streams (D.partitionStream (own D))).groups (D.partitionGroup (own D))).isSome)
    (hlength : totalLength D s < 2 ^ 63) (hpending : totalPending D s < 2 ^ 63) :
    ∃ th m x, setupThrottler D.cfg cid = some th ∧
      (th.updateMetrics m₀).solo (observe D t clock) (s, 0) = some (m, x) ∧
      (Covers D s (clock (ageCall D)) m ↔
        ∀ p ∈ D.partitions, p ≠ own D → pendingIn D s p = []) := by
  obtain ⟨g, hg⟩ := Option.isSome_iff_exists.mp hgroup
  have hle : (pendingIn D s (own D)).length ≤ totalPending D s :=
    List.le_sum_of_mem (List.mem_map_of_mem (own_mem D))
  have hlen : (pendingIn D s (own D)).length < 2 ^ 63 := by omega
  obtain ⟨j, updated, s', hsolo, -⟩ := @reads_updateMetrics_group D t clock s g cid m₀ hg hlen
  refine ⟨_, _, _, setupThrottler_eq hen cid, hsolo, ?_⟩
  have hcount := pendingInfo_count (clock (ageCall D)) hlen
  rw [← totalPending_eq_iff]
  constructor
  · intro hc
    have hall := hc.pending
    dsimp only at hall
    omega
  · intro htotal
    have hothers := (totalPending_eq_iff D s).mp htotal
    -- a pending message is one of the own partition
    have hown : ∀ p ∈ D.partitions, pendingIn D s p ≠ [] → p = own D := by
      intro p hp hne
      by_contra hp'
      exact hne (hothers p hp hp')
    refine ⟨Int64.toInt_ofNat_of_lt hlength, ?_, ?_, ?_, ?_⟩
    · dsimp only
      omega
    · intro hall
      dsimp only
      rw [hall _ (own_mem D)]
      rfl
    · rintro ⟨p, hp, hne⟩
      obtain rfl := hown p hp hne
      obtain ⟨id, rest, hids⟩ := List.exists_cons_of_ne_nil hne
      refine ⟨own D, hp, id, by rw [hids]; exact List.mem_cons_self .., ?_⟩
      dsimp only
      rw [hids, pendingInfo_cons, ageOf_toString]
    · intro p hp id hid
      obtain rfl := hown p hp (List.ne_nil_of_mem hid)
      exact messageAge_le_pendingInfo _ (Stream.pendingIDs_sorted _ _) hid

/-- The ages the throttler stores fit a `time.Duration`, for ids whose timestamp
    fits one. -/
theorem updateMetrics_ageFits {s : Store} {g : Group} (cid : String) (m₀ : ThrottlerMetrics)
    (hg : (s.streams (D.partitionStream (own D))).groups (D.partitionGroup (own D)) = some g)
    (hlen : (pendingIn D s (own D)).length < 2 ^ 63)
    (hids : ∀ id ∈ pendingIn D s (own D), id.ms * 1000000 < 2 ^ 63) :
    ∃ m j, Reads D t clock ((deployed D cid).updateMetrics m₀) s 0 m j ∧ m.AgeFits := by
  obtain ⟨j, updated, hupdate⟩ := @reads_updateMetrics_group D t clock s g cid m₀ hg hlen
  refine ⟨_, j, hupdate, ?_⟩
  unfold ThrottlerMetrics.AgeFits
  dsimp only
  generalize clock (ageCall D) = now
  cases hp : pendingIn D s (own D) with
  | nil =>
      have hzero : (0 : Int64).toInt = 0 := by decide
      simp only [pendingInfo, hzero]
      omega
  | cons id rest =>
      have hid := hids id (by rw [hp]; exact List.mem_cons_self ..)
      have hns := now.ns_lt
      rw [pendingInfo_cons, ageOf_toString]
      unfold messageAge
      generalize hx : ((now.ns / 1000000 : Nat) : Int) - (id.ms : Int) = x
      -- truncation towards zero: split on the sign
      rcases Int.le_total 0 x with hsign | hsign
      · rw [Int.tdiv_eq_ediv_of_nonneg hsign]
        omega
      · have hneg : x.tdiv 1000 = -(-x / 1000) := by
          rw [← Int.tdiv_eq_ediv_of_nonneg (by omega), Int.neg_tdiv, neg_neg]
        rw [hneg]
        omega

/-- The default configuration with every worker on the given partition. -/
def onPartition (p : Int64) (hlo : 0 ≤ p) (hhi : p < 2) : Deployment :=
  { Deployment.ofDefaults true with
    partition := fun _ => p
    partition_nonneg := fun _ => hlo
    partition_lt := fun _ => hhi }

/-- A job is enqueued and read by a worker, and not yet acknowledged. -/
def onePending (D : Deployment) (service : String) : List (Action (world D)) :=
  [.start .setupPartitions] ++ steps 0 3 ++
  [.start (.enqueue { LogEvent.zero with service := service })] ++
  steps 1 5 { uuid := "j", id := .of 1700000000000 0 } ++ [.start (.poll 0 1)] ++ steps 2 2

/-- A message is pending in the throttler's own partition. -/
theorem metrics_cover_own : ∃ (D : Deployment) (c : Conf (world D)) (th : Throttler)
    (m : ThrottlerMetrics) (x : Store × Nat), Policy.any.Reachable Store.init c ∧
    setupThrottler D.cfg "throttler" = some th ∧
    (th.updateMetrics .zero).solo (observe D 3 fun _ => ⟨1700000005000000000, by decide⟩)
      (c.store, 0) = some (m, x) ∧
    Covers D c.store ⟨1700000005000000000, by decide⟩ m ∧ totalPending D c.store = 1 := by
  let D := onPartition 0 (by decide) (by decide)
  obtain ⟨c, hc, hgroup, hlength, hone, hothers⟩ : ∃ c, (Policy.any (W := world D)).Reachable
      Store.init c ∧
      ((c.store.streams (D.partitionStream (own D))).groups (D.partitionGroup (own D))).isSome ∧
      totalLength D c.store = 1 ∧ totalPending D c.store = 1 ∧
      D.partitions.all (fun p => p = own D ∨ pendingIn D c.store p = []) = true :=
    Policy.exists_reachable_any (onePending D "a") (by decide +kernel)
  obtain ⟨th, m, x, hsetup, hsolo, hcover⟩ := metrics_cover_iff D rfl "throttler" 3
    (fun _ => ⟨1700000005000000000, by decide⟩) c.store .zero hgroup (by omega) (by omega)
  have hempty : ∀ p ∈ D.partitions, p ≠ own D → pendingIn D c.store p = [] := by
    intro p hp hne
    exact (of_decide_eq_true (List.all_eq_true.mp hothers p hp)).resolve_left hne
  exact ⟨D, c, th, m, x, hc, hsetup, hsolo, hcover.mpr hempty, hone⟩

/-- A message is pending in the other partition, and the throttler counts none. -/
theorem metrics_miss_partition : ∃ (D : Deployment) (c : Conf (world D)) (th : Throttler)
    (m : ThrottlerMetrics) (x : Store × Nat), D.cfg.ingestion.throttler.enabled = true ∧
    Policy.any.Reachable Store.init c ∧ setupThrottler D.cfg "throttler" = some th ∧
    ((c.store.streams (D.partitionStream (own D))).groups (D.partitionGroup (own D))).isSome ∧
    (th.updateMetrics .zero).solo (observe D 3 fun _ => ⟨1700000005000000000, by decide⟩)
      (c.store, 0) = some (m, x) ∧
    ¬ Covers D c.store ⟨1700000005000000000, by decide⟩ m := by
  let D := onPartition 1 (by decide) (by decide)
  obtain ⟨c, hc, hgroup, hone, ⟨m, x⟩, hsolo, hzero⟩ : ∃ c, (Policy.any (W := world D)).Reachable
      Store.init c ∧
      ((c.store.streams (D.partitionStream (own D))).groups (D.partitionGroup (own D))).isSome ∧
      totalPending D c.store = 1 ∧
      ∃ y ∈ ((deployed D "throttler").updateMetrics .zero).solo
        (observe D 3 fun _ => ⟨1700000005000000000, by decide⟩) (c.store, 0),
        y.1.pendingCount = 0 :=
    Policy.exists_reachable_any (onePending D "b") (by decide +kernel)
  refine ⟨D, c, deployed D "throttler", m, x, rfl, hc, setupThrottler_eq rfl _, hgroup, hsolo, ?_⟩
  intro hcover
  have hpending := hcover.pending
  rw [hone, show m.pendingCount = 0 from hzero] at hpending
  exact absurd hpending (by decide)

-- ============================================================================
-- Recovery
-- ============================================================================

/-- The metrics of a drained queue: its length, and nothing pending. -/
theorem reads_updateMetrics_drained {s : Store} (hdrained : Drained D s) (cid : String)
    (m₀ : ThrottlerMetrics) : ∃ j, Reads D t clock ((deployed D cid).updateMetrics m₀) s 0
      ⟨Int64.ofNat (totalLength D s), 0, 0, (clock j).unix⟩ (j + 1) := by
  have hnone := (hdrained _ (own_mem D)).1
  cases hg : (s.streams (D.partitionStream (own D))).groups (D.partitionGroup (own D)) with
  | none =>
      obtain ⟨r, hr, hread⟩ := reads_getPendingInfo_noGroup D t clock
        (setupConsumer D.cfg.queue (setupDLQ D.cfg.queue) cid)
      have hupdate := reads_updateMetrics (s := s) cid m₀
        fun s' hs' => hread s' D.cfg.queue.partitionCount.toInt.toNat (by rw [hs']; exact hg)
      rw [hr] at hupdate
      exact ⟨_, hupdate⟩
  | some g =>
      have hlen : (pendingIn D s (own D)).length < 2 ^ 63 := by
        rw [hnone, List.length_nil]
        omega
      have hupdate := reads_updateMetrics cid m₀ fun _ => @reads_getPendingMetrics D t clock
        s _ g cid hg hlen
      rw [hnone] at hupdate
      exact ⟨_, hupdate⟩

/-- With a drained queue the throttler allows exactly if the entries still stored
    are within the rate limit. -/
theorem recovers_iff (D : Deployment) (hen : D.cfg.ingestion.throttler.enabled = true)
    (cid : String) (t : Nat) (clock : Nat → Instant) (s : Store) (hdrained : Drained D s)
    (m₀ : ThrottlerMetrics) :
    ∃ th m x, setupThrottler D.cfg cid = some th ∧
      (th.updateMetrics m₀).solo (observe D t clock) (s, 0) = some (m, x) ∧
      ∀ now, ¬ th.Stale m now → ((th.decision m now).1 = .allow ↔
        float64 (Int64.ofNat (totalLength D s)) ≤
          D.cfg.ingestion.throttler.rateLimitScore *
            float64 D.cfg.ingestion.throttler.softDepthLimit) := by
  obtain ⟨j, s', hsolo, -⟩ := @reads_updateMetrics_drained D t clock s hdrained cid m₀
  refine ⟨_, _, _, setupThrottler_eq hen cid, hsolo, ?_⟩
  intro now hfresh
  have hok : (deployed D cid).config.Ok := D.accepted.throttler hen
  rw [Throttler.decision_eq_allow hen hok hfresh]
  have hage : float64 ((0 : Int64) * second) ≤
      D.cfg.ingestion.throttler.rateLimitScore *
        float64 D.cfg.ingestion.throttler.maxMessageAge := by
    have hzero : float64 ((0 : Int64) * second) = 0 := by decide
    rw [hzero]
    exact (mul_pos hok.rateLimitScore (Throttler.float64_pos hok.maxMessageAge)).le
  exact ⟨fun h => h.1, fun h => ⟨h, hage⟩⟩

/-- The default configuration with a soft limit of one message. -/
def lowLimits : Deployment :=
  { Deployment.ofDefaults true with
    accepted := ⟨{ Config.getDefaults with ingestion := {
      maxQueueDepth := 1000
      throttler := { Config.defaultThrottler with
        softDepthLimit := 1, rateLimitScore := 1 / 2, circuitOpenScore := 3 / 4 } } },
      by decide +kernel⟩
    partition_lt := Deployment.ofDefaults_partition_lt true }

/-- One job is processed and acknowledged. -/
def oneDone (D : Deployment) : List (Action (world D)) :=
  [.start .setupPartitions] ++ steps 0 3 ++
  [.start (.enqueue { LogEvent.zero with service := "a" })] ++
  steps 1 5 { uuid := "j", id := .of 1 0 } ++ [.start (.poll 0 1)] ++ steps 2 5 ++
  [.start (.process 0)] ++ steps 3 8

/-- After the only job is done the circuit is open. -/
theorem throttled_when_drained : ∃ (D : Deployment) (c : Conf (world D)) (th : Throttler)
    (m : ThrottlerMetrics) (x : Store × Nat) (now : Instant),
    D.cfg.ingestion.throttler.enabled = true ∧ Policy.any.Reachable Store.init c ∧
    Drained D c.store ∧ setupThrottler D.cfg "throttler" = some th ∧
    (th.updateMetrics .zero).solo (observe D 4 fun _ => now) (c.store, 0) = some (m, x) ∧
    ¬ th.Stale m now ∧ (th.decision m now).1 ≠ .allow := by
  let now : Instant := ⟨1700000005000000000, by decide⟩
  obtain ⟨c, hc, hdrained, ⟨m, x⟩, hsolo, hrest⟩ : ∃ c,
      (Policy.any (W := world lowLimits)).Reachable Store.init c ∧ Drained lowLimits c.store ∧
      ∃ y ∈ ((deployed lowLimits "throttler").updateMetrics .zero).solo
        (observe lowLimits 4 fun _ => now) (c.store, 0),
        ¬ (deployed lowLimits "throttler").Stale y.1 now ∧
        ((deployed lowLimits "throttler").decision y.1 now).1 ≠ .allow :=
    Policy.exists_reachable_any (oneDone lowLimits) (by decide +kernel)
  exact ⟨lowLimits, c, deployed lowLimits "throttler", m, x, now, rfl, hc, hdrained,
    setupThrottler_eq rfl _, hsolo, hrest⟩

/-- With the default limits the throttler allows again after the job is done. -/
theorem recovers_ofDefaults : ∃ (c : Conf (world (.ofDefaults true))) (th : Throttler)
    (m : ThrottlerMetrics) (x : Store × Nat), Policy.any.Reachable Store.init c ∧
    Drained (.ofDefaults true) c.store ∧
    setupThrottler (Deployment.cfg (.ofDefaults true)) "throttler" = some th ∧
    (th.updateMetrics .zero).solo (observe (.ofDefaults true) 4 fun _ => ⟨0, by decide⟩)
      (c.store, 0) = some (m, x) ∧
    ∀ now, ¬ th.Stale m now → (th.decision m now).1 = .allow := by
  obtain ⟨c, hc, hdrained, hone⟩ : ∃ c,
      (Policy.any (W := world (.ofDefaults true))).Reachable Store.init c ∧
      Drained (.ofDefaults true) c.store ∧ totalLength (.ofDefaults true) c.store = 1 :=
    Policy.exists_reachable_any (oneDone _) (by decide +kernel)
  obtain ⟨th, m, x, hsetup, hsolo, hallow⟩ := recovers_iff (.ofDefaults true) rfl "throttler" 4
    (fun _ => ⟨0, by decide⟩) c.store hdrained .zero
  refine ⟨c, th, m, x, hc, hdrained, hsetup, hsolo, fun now hfresh => (hallow now hfresh).mpr ?_⟩
  rw [hone]
  decide +kernel

end

end LogPipeline.Ingestion
