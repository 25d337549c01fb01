/-
  LogPipeline.Ingestion.Throttler

  `internal/ingestion/adpative_throttler.go` and its wiring in
  `internal/bootstrap/throttler.go`: the cached queue metrics and the admission
  decision taken from them.

  `float64` values are exact rationals.  The decision grows with both metrics
  (`decision_mono`); whether it keeps to the configured hard limits depends on the
  settings (`hard_limits_iff`), since `Decision` reads neither `HardDepthLimit` nor
  `CriticalMessageAge`.
-/

import LogPipeline.Bootstrap
import Mathlib.Algebra.Order.Field.Rat
import Mathlib.Algebra.Order.Field.Basic
import Mathlib.Tactic.Linarith

namespace LogPipeline.Ingestion

open Conc Go Redis Cluster Queue Bootstrap

-- ============================================================================
-- Metrics
-- ============================================================================

/-- `ThrottlerMetrics`. -/
structure ThrottlerMetrics where
  streamDepth : Int64
  pendingCount : Int64
  /-- In seconds. -/
  oldestMessageAge : Int64
  /-- A unix timestamp. -/
  lastUpdated : Int64

/-- The metrics of a throttler that was just built. -/
def ThrottlerMetrics.zero : ThrottlerMetrics := ⟨0, 0, 0, 0⟩

/-- `Throttler`, with the settings its producer reads. -/
structure Throttler where
  producer : QueueConfig
  /-- A consumer that can tell its pending messages, or none. -/
  consumer : Option Consumer
  config : ThrottlerConfig

namespace Throttler

/-- `getPendingMetrics`. -/
def getPendingMetrics (t : Throttler) (ctx : Ctx) : Program (Except String (Int64 × Int64)) :=
  match t.consumer with
  | none => return .ok (0, 0)
  | some c => c.getPendingInfo ctx

/-- `updateMetrics`: the metrics after it, given those before. -/
def updateMetrics (t : Throttler) (m : ThrottlerMetrics) : Program ThrottlerMetrics := do
  match ← streamLength t.producer .background with
  | .error _ => return m
  | .ok depth =>
      match ← t.getPendingMetrics .background with
      | .error _ =>
          -- the pending figures are given up, the depth is kept
          let now ← call .now
          return ⟨depth, 0, 0, now.unix⟩
      | .ok (pending, oldestAge) =>
          let now ← call .now
          return ⟨depth, pending, oldestAge, now.unix⟩

end Throttler

/-- `SetupThrottler`; none is the throttler that always allows. -/
def setupThrottler (cfg : Config) (throttlerConsumerID : String) : Option Throttler :=
  if cfg.ingestion.throttler.enabled then
    some {
      producer := cfg.queue
      consumer := some (setupConsumer cfg.queue (setupDLQ cfg.queue) throttlerConsumerID)
      config := cfg.ingestion.throttler }
  else none

-- ============================================================================
-- The decision
-- ============================================================================

/-- `ThrottleDecision`, the milder ones first. -/
inductive ThrottleDecision where
  | allow
  | rateLimit
  | circuitOpen
deriving DecidableEq

/-- The value of the constant. -/
def ThrottleDecision.toNat : ThrottleDecision → Nat
  | .allow => 0
  | .rateLimit => 1
  | .circuitOpen => 2

instance : LE ThrottleDecision := ⟨fun a b => a.toNat ≤ b.toNat⟩

/-- An integer as a `float64`. -/
def float64 (n : Int64) : Rat := (n.toInt : Rat)

/-- A `float64` as an integer: truncated, and the smallest integer if that is out
    of range. -/
def truncate (q : Rat) : Int64 :=
  let n := q.num.tdiv q.den
  if -2 ^ 63 ≤ n ∧ n < 2 ^ 63 then Int64.ofInt n else Int64.minValue

/-- `max`. -/
def max (a b : Rat) : Rat := if a > b then a else b

namespace Throttler

/-- `computeRetryAfter`. -/
def computeRetryAfter (t : Throttler) (m : ThrottlerMetrics) (depth : Int64)
    (oldestAge : Duration) : Duration :=
  let drainRate := t.config.estimatedDrainRate
  if drainRate ≤ 0 then t.config.minRetryAfter
  else
    let backlog := float64 (depth + m.pendingCount)
    let retrySeconds := backlog / drainRate
    let retrySeconds :=
      if oldestAge > t.config.maxMessageAge then
        retrySeconds * (float64 oldestAge / float64 t.config.maxMessageAge)
      else retrySeconds
    let retryAfter := truncate retrySeconds * second
    let retryAfter :=
      if retryAfter < t.config.minRetryAfter then t.config.minRetryAfter else retryAfter
    if retryAfter > t.config.maxRetryAfter then t.config.maxRetryAfter else retryAfter

/-- The load of a depth and an age against the soft limits. -/
def overloadScore (t : Throttler) (depth : Int64) (oldestAge : Duration) : Rat :=
  max (float64 depth / float64 t.config.softDepthLimit)
    (float64 oldestAge / float64 t.config.maxMessageAge)

/-- The metrics are too old to decide by. -/
def Stale (t : Throttler) (m : ThrottlerMetrics) (now : Instant) : Prop :=
  now.since m.lastUpdated > 2 * t.config.metricsUpdateInterval

instance (t : Throttler) (m : ThrottlerMetrics) (now : Instant) : Decidable (t.Stale m now) :=
  inferInstanceAs (Decidable (_ > _))

/-- `Decision`, with the advised delay. -/
def decision (t : Throttler) (m : ThrottlerMetrics) (now : Instant) :
    ThrottleDecision × Duration :=
  if t.config.enabled = false then (.allow, 0)
  else if t.Stale m now then (.allow, 0)
  else
    let depth := m.streamDepth
    let oldestAge : Duration := m.oldestMessageAge * second
    let score := t.overloadScore depth oldestAge
    if score > t.config.circuitOpenScore then (.circuitOpen, 0)
    else if score > t.config.rateLimitScore then
      (.rateLimit, t.computeRetryAfter m depth oldestAge)
    else (.allow, 0)

-- ============================================================================
-- Decisions and scores
-- ============================================================================

/-- The decision for a score. -/
def verdict (t : Throttler) (score : Rat) : ThrottleDecision :=
  if score > t.config.circuitOpenScore then .circuitOpen
  else if score > t.config.rateLimitScore then .rateLimit
  else .allow

/-- With fresh metrics the score decides. -/
theorem decision_fst {t : Throttler} {m : ThrottlerMetrics} {now : Instant}
    (hen : t.config.enabled = true) (hfresh : ¬ t.Stale m now) :
    (t.decision m now).1 =
      t.verdict (t.overloadScore m.streamDepth (m.oldestMessageAge * second)) := by
  unfold decision verdict
  rw [if_neg (by simp [hen]), if_neg hfresh]
  dsimp only
  split
  · rfl
  · split <;> rfl

theorem verdict_mono (t : Throttler) {a b : Rat} (h : a ≤ b) : t.verdict a ≤ t.verdict b := by
  unfold verdict
  by_cases hopen : a > t.config.circuitOpenScore
  · rw [if_pos hopen, if_pos (lt_of_lt_of_le hopen h)]
    exact Nat.le_refl _
  · rw [if_neg hopen]
    by_cases hrate : a > t.config.rateLimitScore
    · rw [if_pos hrate, if_pos (lt_of_lt_of_le hrate h)]
      split
      · exact Nat.le_succ 1
      · exact Nat.le_refl 1
    · rw [if_neg hrate]
      exact Nat.zero_le _

theorem verdict_eq_allow {t : Throttler} (hok : t.config.Ok) {a : Rat} :
    t.verdict a = .allow ↔ a ≤ t.config.rateLimitScore := by
  have hlt := hok.circuit_gt_rate
  unfold verdict
  constructor
  · intro h
    by_contra hgt
    rw [not_le] at hgt
    rw [if_pos hgt] at h
    split at h <;> cases h
  · intro h
    rw [if_neg (not_lt.mpr (h.trans hlt.le)), if_neg (not_lt.mpr h)]

theorem max_le_rat_iff {a b c : Rat} : Ingestion.max a b ≤ c ↔ a ≤ c ∧ b ≤ c := by
  unfold Ingestion.max
  split
  · next h => exact ⟨fun hc => ⟨hc, h.le.trans hc⟩, fun hc => hc.1⟩
  · next h => exact ⟨fun hc => ⟨(not_lt.mp h).trans hc, hc⟩, fun hc => hc.2⟩

theorem float64_mono {a b : Int64} (h : a ≤ b) : float64 a ≤ float64 b := by
  unfold float64
  exact_mod_cast Int64.le_iff_toInt_le.mp h

theorem float64_pos {a : Int64} (h : 0 < a) : 0 < float64 a := by
  unfold float64
  exact_mod_cast Int64.lt_iff_toInt_lt.mp h

/-- A score is low if both ratios are. -/
theorem overloadScore_le_iff {t : Throttler} (hok : t.config.Ok) {depth : Int64} {age : Duration}
    {c : Rat} : t.overloadScore depth age ≤ c ↔
      float64 depth ≤ c * float64 t.config.softDepthLimit ∧
      float64 age ≤ c * float64 t.config.maxMessageAge := by
  unfold overloadScore
  rw [max_le_rat_iff, div_le_iff₀ (float64_pos hok.softDepthLimit),
    div_le_iff₀ (float64_pos hok.maxMessageAge)]

theorem overloadScore_mono {t : Throttler} (hok : t.config.Ok) {depth depth' : Int64}
    {age age' : Duration} (hdepth : depth ≤ depth') (hage : age ≤ age') :
    t.overloadScore depth age ≤ t.overloadScore depth' age' := by
  obtain ⟨hd, ha⟩ := (overloadScore_le_iff hok).mp (le_refl (t.overloadScore depth' age'))
  exact (overloadScore_le_iff hok).mpr
    ⟨(float64_mono hdepth).trans hd, (float64_mono hage).trans ha⟩

end Throttler

-- ============================================================================
-- Hard limits
-- ============================================================================

/-- The age in nanoseconds fits a `time.Duration`. -/
def ThrottlerMetrics.AgeFits (m : ThrottlerMetrics) : Prop :=
  -2 ^ 63 ≤ m.oldestMessageAge.toInt * 1000000000 ∧ m.oldestMessageAge.toInt * 1000000000 < 2 ^ 63

instance (m : ThrottlerMetrics) : Decidable m.AgeFits := inferInstanceAs (Decidable (_ ∧ _))

/-- The first whole second that is not before the duration, in nanoseconds. -/
def ceilSecond (d : Duration) : Int := (d.toInt + 999999999) / 1000000000 * 1000000000

namespace Throttler

/-- The hard limits bound admission, and admission only gets stricter as the
    metrics grow. -/
structure Bounded (t : Throttler) : Prop where
  mono : ∀ m m' now now', m.AgeFits → m'.AgeFits → ¬ t.Stale m now → ¬ t.Stale m' now' →
    m.streamDepth ≤ m'.streamDepth → m.oldestMessageAge ≤ m'.oldestMessageAge →
    (t.decision m now).1 ≤ (t.decision m' now').1
  hard : ∀ m now, m.AgeFits → ¬ t.Stale m now →
    t.config.hardDepthLimit ≤ m.streamDepth ∨
      t.config.criticalMessageAge.toInt ≤ m.oldestMessageAge.toInt * 1000000000 →
    (t.decision m now).1 ≠ .allow

/-- Rate limiting sets in below both hard limits. -/
structure LimitsCovered (cfg : ThrottlerConfig) : Prop where
  depth : cfg.rateLimitScore * float64 cfg.softDepthLimit < float64 cfg.hardDepthLimit
  age : ceilSecond cfg.criticalMessageAge < 2 ^ 63 →
    cfg.rateLimitScore * float64 cfg.maxMessageAge < ceilSecond cfg.criticalMessageAge

theorem toInt_mul_second {m : ThrottlerMetrics} (hfits : m.AgeFits) :
    (m.oldestMessageAge * second).toInt = m.oldestMessageAge.toInt * 1000000000 := by
  obtain ⟨hlo, hhi⟩ := hfits
  have hsec : second.toInt = 1000000000 := by decide
  rw [Int64.toInt_mul, hsec]
  apply Int.bmod_eq_of_le
  · omega
  · omega

theorem float64_age {m : ThrottlerMetrics} (hfits : m.AgeFits) :
    float64 (m.oldestMessageAge * second) =
      ((m.oldestMessageAge.toInt * 1000000000 : Int) : Rat) := by
  rw [float64, toInt_mul_second hfits]

theorem decision_mono {t : Throttler} (hen : t.config.enabled = true) (hok : t.config.Ok)
    {m m' : ThrottlerMetrics} {now now' : Instant} (hm : m.AgeFits) (hm' : m'.AgeFits)
    (hfresh : ¬ t.Stale m now) (hfresh' : ¬ t.Stale m' now')
    (hdepth : m.streamDepth ≤ m'.streamDepth) (hage : m.oldestMessageAge ≤ m'.oldestMessageAge) :
    (t.decision m now).1 ≤ (t.decision m' now').1 := by
  rw [decision_fst hen hfresh, decision_fst hen hfresh']
  apply t.verdict_mono
  refine overloadScore_mono hok hdepth ?_
  have hlt := Int64.le_iff_toInt_le.mp hage
  rw [Int64.le_iff_toInt_le, toInt_mul_second hm, toInt_mul_second hm']
  omega

/-- Fresh metrics are admitted exactly if neither metric is over its share. -/
theorem decision_eq_allow {t : Throttler} (hen : t.config.enabled = true) (hok : t.config.Ok)
    {m : ThrottlerMetrics} {now : Instant} (hfresh : ¬ t.Stale m now) :
    (t.decision m now).1 = .allow ↔
      float64 m.streamDepth ≤ t.config.rateLimitScore * float64 t.config.softDepthLimit ∧
      float64 (m.oldestMessageAge * second) ≤
        t.config.rateLimitScore * float64 t.config.maxMessageAge := by
  rw [decision_fst hen hfresh, verdict_eq_allow hok, overloadScore_le_iff hok]

/-- Metrics with a timestamp in the far future are never stale. -/
theorem not_stale_of_maxValue (t : Throttler) {m : ThrottlerMetrics} (now : Instant)
    (hm : m.lastUpdated = Int64.maxValue) : ¬ t.Stale m now := by
  have hns := now.ns_lt
  have hmax : Int64.maxValue.toInt = 2 ^ 63 - 1 := by decide
  have hsince : now.since m.lastUpdated = Int64.minValue := by
    unfold Instant.since
    rw [hm, hmax]
    rw [if_pos (by omega)]
  unfold Stale
  rw [hsince, gt_iff_lt, Int64.not_lt, Int64.le_iff_toInt_le]
  have hmin : Int64.minValue.toInt = -2 ^ 63 := by decide
  have := Int64.le_toInt (2 * t.config.metricsUpdateInterval)
  omega

theorem le_ceilSecond (d : Duration) : d.toInt ≤ ceilSecond d := by
  unfold ceilSecond
  omega

theorem ceilSecond_le {d : Duration} {n : Int} (h : d.toInt ≤ n * 1000000000) :
    ceilSecond d ≤ n * 1000000000 := by
  unfold ceilSecond
  omega

/-- Metrics that nothing makes stale. -/
def snapshot (depth age : Int64) : ThrottlerMetrics := ⟨depth, 0, age, Int64.maxValue⟩

/-- A queue that is exactly as deep as the hard limit, with nothing pending. -/
theorem Bounded.depth_lt {t : Throttler} (hb : t.Bounded) (hen : t.config.enabled = true)
    (hok : t.config.Ok) :
    t.config.rateLimitScore * float64 t.config.softDepthLimit <
      float64 t.config.hardDepthLimit := by
  have hfresh := t.not_stale_of_maxValue (m := snapshot t.config.hardDepthLimit 0)
    ⟨0, by decide⟩ rfl
  have hfits : (snapshot t.config.hardDepthLimit 0).AgeFits := by
    change -2 ^ 63 ≤ (0 : Int64).toInt * 1000000000 ∧ (0 : Int64).toInt * 1000000000 < 2 ^ 63
    decide
  have hne := hb.hard _ _ hfits hfresh (Or.inl (Int64.le_refl _))
  rw [ne_eq, decision_eq_allow hen hok hfresh, not_and_or, not_le, not_le] at hne
  rcases hne with hlt | hlt
  · exact hlt
  · have hpos := mul_pos hok.rateLimitScore (float64_pos hok.maxMessageAge)
    have hzero : float64 ((0 : Int64) * second) = 0 := by decide
    exact absurd (hpos.trans hlt) (by rw [snapshot, hzero]; exact lt_irrefl _)

/-- A message exactly as old as the critical age, in an empty queue. -/
theorem Bounded.age_lt {t : Throttler} (hb : t.Bounded) (hen : t.config.enabled = true)
    (hok : t.config.Ok) (hrange : ceilSecond t.config.criticalMessageAge < 2 ^ 63) :
    t.config.rateLimitScore * float64 t.config.maxMessageAge <
      ceilSecond t.config.criticalMessageAge := by
  have hcrit := le_ceilSecond t.config.criticalMessageAge
  have hpos : 0 < t.config.criticalMessageAge.toInt := by
    have h1 := Int64.lt_iff_toInt_lt.mp hok.maxMessageAge
    have h2 := Int64.lt_iff_toInt_lt.mp hok.critical_gt_max
    have hzero : (0 : Int64).toInt = 0 := by decide
    omega
  obtain ⟨n, hn⟩ : ∃ n, ceilSecond t.config.criticalMessageAge = n * 1000000000 := ⟨_, rfl⟩
  have hage : (Int64.ofInt n).toInt = n := Int64.toInt_ofInt_of_le (by omega) (by omega)
  have hfits : (snapshot 0 (Int64.ofInt n)).AgeFits := by
    change -2 ^ 63 ≤ (Int64.ofInt n).toInt * 1000000000 ∧
      (Int64.ofInt n).toInt * 1000000000 < 2 ^ 63
    rw [hage]
    omega
  have hfresh := t.not_stale_of_maxValue (m := snapshot 0 (Int64.ofInt n)) ⟨0, by decide⟩ rfl
  have hne := hb.hard _ _ hfits hfresh (Or.inr (by
    change t.config.criticalMessageAge.toInt ≤ (Int64.ofInt n).toInt * 1000000000
    rw [hage]
    omega))
  rw [ne_eq, decision_eq_allow hen hok hfresh, not_and_or, not_le, not_le] at hne
  rcases hne with hlt | hlt
  · have hpos := mul_pos hok.rateLimitScore (float64_pos hok.softDepthLimit)
    have hzero : float64 0 = 0 := by decide
    exact absurd (hpos.trans hlt) (by rw [snapshot, hzero]; exact lt_irrefl _)
  · rw [float64_age hfits] at hlt
    rw [hn, ← hage]
    exact hlt

/-- The hard limits are kept exactly if rate limiting sets in below them. -/
theorem hard_limits_iff (t : Throttler) (hen : t.config.enabled = true)
    (hvalid : Config.validateThrottler t.config = none) :
    t.Bounded ↔ LimitsCovered t.config := by
  have hok := Config.validateThrottler_ok hen hvalid
  constructor
  · intro hb
    exact ⟨hb.depth_lt hen hok, hb.age_lt hen hok⟩
  · intro hc
    refine ⟨fun m m' now now' hm hm' hf hf' => decision_mono hen hok hm hm' hf hf', ?_⟩
    intro m now hm hfresh hover hallow
    obtain ⟨hdepth, hage⟩ := (decision_eq_allow hen hok hfresh).mp hallow
    rcases hover with hover | hover
    · exact absurd (hc.depth.trans_le (float64_mono hover)) (not_lt.mpr hdepth)
    · have hle := ceilSecond_le hover
      have hlt := hc.age (lt_of_le_of_lt hle hm.2)
      refine absurd (hlt.trans_le ?_) (not_lt.mpr hage)
      rw [float64_age hm]
      exact_mod_cast hle

/-- The throttler of the default configuration. -/
def ofDefaults : Throttler where
  producer := Config.defaultQueue
  consumer := none
  config := Config.defaultThrottler

theorem hard_limits_ofDefaults : ofDefaults.Bounded := by
  refine (hard_limits_iff ofDefaults (by decide) (by decide +kernel)).mpr ⟨?_, ?_⟩
  · decide +kernel
  · intro _
    decide +kernel

/-- With an accepted score of 60 a queue at its hard limit is still admitted. -/
theorem hard_limit_admitted : ∃ (t : Throttler) (m : ThrottlerMetrics) (now : Instant),
    t.config.enabled = true ∧ Config.validateThrottler t.config = none ∧ m.AgeFits ∧
    ¬ t.Stale m now ∧ t.config.hardDepthLimit ≤ m.streamDepth ∧
    (t.decision m now).1 = .allow := by
  refine ⟨{ ofDefaults with config :=
    { Config.defaultThrottler with rateLimitScore := 60, circuitOpenScore := 61 } },
    ⟨5000, 0, 0, 1700000000⟩, ⟨1700000000000000000, by decide⟩, ?_⟩
  decide +kernel

end Throttler

end LogPipeline.Ingestion
