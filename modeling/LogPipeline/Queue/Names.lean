/-
  LogPipeline.Queue.Names

  The streams and groups a queue configuration names, and when it keeps them
  apart.

  Partition streams, and partition groups, differ in the decimal number they end
  in, so no two of them are the same.  The validator compares the dead letter
  stream with the base stream only.  `dlqPartition` reads the dead letter stream
  name as a partition stream name; `apart_iff` says that a configuration keeps its
  queues apart exactly when that fails.
-/

import LogPipeline.Bootstrap

namespace LogPipeline.Queue

open Conc Go Redis Cluster Bootstrap

-- ============================================================================
-- Names
-- ============================================================================

/-- `i` is the id of a partition. -/
def HasPartition (cfg : QueueConfig) (i : Int64) : Prop := 0 ≤ i ∧ i < cfg.partitionCount

instance (cfg : QueueConfig) (i : Int64) : Decidable (HasPartition cfg i) :=
  inferInstanceAs (Decidable (_ ∧ _))

/-- The consumer of the worker that is configured with this partition. -/
def consumerOf (cfg : QueueConfig) (i : Int64) (workerID : String) : Consumer :=
  setupConsumer { cfg with partitionID := i } (setupDLQ cfg) workerID

theorem partitionStreamName_injective {base : String} {i j : Int64}
    (h : partitionStreamName base i = partitionStreamName base j) : i = j :=
  formatInt_injective ((String.append_right_inj _).mp h)

theorem partitionGroupName_injective {base : String} {i j : Int64}
    (h : partitionGroupName base i = partitionGroupName base j) : i = j :=
  formatInt_injective ((String.append_right_inj _).mp h)

/-- The partition whose stream has the name of the dead letter stream: what is
    left of that name after the partition stem is the number of a partition, as
    `%d` writes it. -/
def dlqPartition (cfg : QueueConfig) : Option Int64 :=
  (cutPrefix cfg.dlqStreamName (cfg.baseStreamName ++ ":partition:")).bind fun rest =>
    (parseInt rest).filter fun i => formatInt i = rest ∧ HasPartition cfg i

theorem dlqPartition_eq_some {cfg : QueueConfig} {i : Int64} :
    dlqPartition cfg = some i ↔
      HasPartition cfg i ∧ cfg.dlqStreamName = partitionStreamName cfg.baseStreamName i := by
  unfold dlqPartition partitionStreamName
  rw [Option.bind_eq_some_iff]
  constructor
  · rintro ⟨rest, hcut, hparse⟩
    obtain ⟨-, hi⟩ := Option.filter_eq_some_iff.mp hparse
    obtain ⟨hrest, hpart⟩ := of_decide_eq_true hi
    refine ⟨hpart, ?_⟩
    rw [hrest]
    exact cutPrefix_eq_some.mp hcut
  · rintro ⟨hpart, hname⟩
    refine ⟨formatInt i, cutPrefix_eq_some.mpr hname, ?_⟩
    rw [parseInt_formatInt]
    exact Option.filter_eq_some_iff.mpr ⟨rfl, decide_eq_true ⟨rfl, hpart⟩⟩

theorem dlqPartition_eq_none {cfg : QueueConfig} :
    dlqPartition cfg = none ↔
      ∀ i, HasPartition cfg i → cfg.dlqStreamName ≠ partitionStreamName cfg.baseStreamName i := by
  rw [Option.eq_none_iff_forall_ne_some]
  constructor
  · intro h i hi hname
    exact h i (dlqPartition_eq_some.mpr ⟨hi, hname⟩)
  · intro h i hi
    obtain ⟨hpart, hname⟩ := dlqPartition_eq_some.mp hi
    exact h i hpart hname

-- ============================================================================
-- Queues kept apart
-- ============================================================================

/-- Partition streams, partition groups and the dead letter stream are all
    different, and what `Send` writes does not enter a stream that is consumed. -/
structure Apart (cfg : QueueConfig) : Prop where
  streams : ∀ i j, HasPartition cfg i → HasPartition cfg j →
    partitionStreamName cfg.baseStreamName i = partitionStreamName cfg.baseStreamName j → i = j
  groups : ∀ i j, HasPartition cfg i → HasPartition cfg j →
    partitionGroupName cfg.baseConsumerGroup i = partitionGroupName cfg.baseConsumerGroup j →
    i = j
  dlq : ∀ i, HasPartition cfg i →
    cfg.dlqStreamName ≠ partitionStreamName cfg.baseStreamName i
  sends : ∀ ctx entry i workerID, HasPartition cfg i →
    ((setupDLQ cfg).send ctx entry).Uses fun o =>
      ∀ ctx' maxLen v, o ≠ Op.redis ctx' (.xAdd (consumerOf cfg i workerID).streamName maxLen v)

/-- `Send` adds to the stream of the queue it is called on, if anything. -/
theorem uses_send {d : DLQ} {ctx : Ctx} {entry : DLQEntry} {φ : Op → Prop}
    (h : ∀ v, φ (.redis ctx (.xAdd d.streamName d.maxLen v))) : (d.send ctx entry).Uses φ := by
  unfold DLQ.send
  cases dlqEntryStruct.marshal entry with
  | error err => trivial
  | ok text =>
      refine ⟨h _, ?_⟩
      intro reply
      cases reply with
      | error err => trivial
      | ok id => trivial

/-- A configuration, accepted or not, keeps its queues apart unless the dead letter
    stream has the name of a partition stream. -/
theorem apart_iff (cfg : QueueConfig) : Apart cfg ↔ dlqPartition cfg = none := by
  rw [dlqPartition_eq_none]
  constructor
  · exact fun hapart => hapart.dlq
  · intro hdlq
    refine ⟨fun i j _ _ => partitionStreamName_injective,
      fun i j _ _ => partitionGroupName_injective, hdlq, ?_⟩
    intro ctx entry i workerID hi
    refine uses_send fun v ctx' maxLen v' ho => hdlq i hi ?_
    injection ho with _ hcmd
    injection hcmd

example : dlqPartition Config.getDefaults.queue = none := by decide +kernel

/-- The validator accepts the stream of the first partition as dead letter stream. -/
theorem dlq_is_partition : ∃ cfg : QueueConfig, Config.validateQueue cfg = none ∧ ¬ Apart cfg := by
  refine ⟨{ Config.getDefaults.queue with dlqStreamName := "logs:ingest:partition:0" },
    by decide +kernel, ?_⟩
  intro hapart
  exact hapart.dlq 0 (by decide +kernel) (by decide +kernel)

end LogPipeline.Queue
