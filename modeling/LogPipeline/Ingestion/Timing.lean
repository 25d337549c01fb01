/-
  LogPipeline.Ingestion.Timing

  The two places where the throttler computes with time: how old the cached metrics
  are (`Decision`), and how long a client is told to wait (`computeRetryAfter`).

  `updateMetrics` stores whole seconds and `Decision` compares nanoseconds, so metrics
  look up to a second older than they are (`staleness_iff`).  The advised delay is a
  whole number of seconds times `time.Second` in an int64, so it follows the load only
  while that product does not wrap (`retryAfter_monotone_iff`).
-/

import LogPipeline.Ingestion.Throttler
import Mathlib.Data.Rat.Floor
import Mathlib.Tactic.Positivity

namespace LogPipeline.Ingestion

open Conc Go Redis Cluster Queue Bootstrap

namespace Throttler

-- ============================================================================
-- Staleness
-- ============================================================================

/-- The time since a stored timestamp is the time since the instant it was taken at,
    and the part of a second that was cut off. -/
theorem since_unix {u d : Instant} (h : u.ns ≤ d.ns) :
    (d.since u.unix).toInt = (d.ns : Int) - u.ns + (u.ns % 1000000000 : Nat) := by
  have hd := d.ns_lt
  unfold Instant.since
  rw [Instant.unix_toInt]
  dsimp only
  rw [if_neg (by omega), if_neg (by omega), Int64.toInt_ofInt_of_le (by omega) (by omega)]
  omega

/-- Doubling an interval that is too long gives a negative duration. -/
theorem toInt_two_mul {interval : Duration} (hpos : 0 < interval) :
    (2 * interval).toInt =
      if 2 * interval.toInt < 2 ^ 63 then 2 * interval.toInt
      else 2 * interval.toInt - 2 ^ 64 := by
  have hlo := Int64.lt_iff_toInt_lt.mp hpos
  have hhi := Int64.toInt_lt interval
  have hzero : (0 : Int64).toInt = 0 := by decide
  have htwo : (2 : Int64).toInt = 2 := by decide
  rw [Int64.toInt_mul, htwo, Int.bmod_def]
  split
  · omega
  · omega

theorem stale_iff {t : Throttler} (hint : 0 < t.config.metricsUpdateInterval)
    {m : ThrottlerMetrics} {u d : Instant} (hm : m.lastUpdated = u.unix) (h : u.ns ≤ d.ns) :
    t.Stale m d ↔ 2 ^ 63 ≤ 2 * t.config.metricsUpdateInterval.toInt ∨
      2 * t.config.metricsUpdateInterval.toInt <
        (d.ns : Int) - u.ns + (u.ns % 1000000000 : Nat) := by
  have hhi := Int64.toInt_lt t.config.metricsUpdateInterval
  unfold Stale
  rw [hm, gt_iff_lt, Int64.lt_iff_toInt_lt, toInt_two_mul hint, since_unix h]
  split
  · omega
  · omega

/-- Metrics stored at `u` decide at `d` while they are at most two update intervals
    old, and no longer. -/
structure FollowsAge (t : Throttler) (m : ThrottlerMetrics) (u d : Instant) : Prop where
  fresh : (d.ns : Int) - u.ns ≤ 2 * t.config.metricsUpdateInterval.toInt →
    (t.decision m d).1 = t.verdict (t.overloadScore m.streamDepth (m.oldestMessageAge * second))
  stale : 2 * t.config.metricsUpdateInterval.toInt < (d.ns : Int) - u.ns →
    (t.decision m d).1 = .allow

theorem decision_of_stale {t : Throttler} {m : ThrottlerMetrics} {now : Instant}
    (hstale : t.Stale m now) : t.decision m now = (.allow, 0) := by
  unfold decision
  split
  · rfl
  · rfl

/-- The default throttler with another update interval. -/
def updatedEvery (interval : Duration) : Throttler :=
  { ofDefaults with
    config := { Config.defaultThrottler with metricsUpdateInterval := interval } }

theorem updatedEvery_ok {interval : Duration} (hpos : 0 < interval) :
    (updatedEvery interval).config.Ok := by
  have hok : Config.defaultThrottler.Ok :=
    Config.validateThrottler_ok (by decide) (by decide +kernel)
  exact { hok with metricsUpdateInterval := hpos }

/-- A queue far over its soft limit, seen at `u`. -/
def overloadedAt (u : Instant) : ThrottlerMetrics := ⟨1000, 0, 0, u.unix⟩

theorem verdict_overloadedAt (interval : Duration) (u : Instant) :
    (updatedEvery interval).verdict ((updatedEvery interval).overloadScore
      (overloadedAt u).streamDepth ((overloadedAt u).oldestMessageAge * second)) =
      .circuitOpen := by
  change ofDefaults.verdict (ofDefaults.overloadScore 1000 (0 * second)) = .circuitOpen
  decide +kernel

/-- Stored metrics are used for two update intervals exactly if twice the interval
    is a duration and the cut off part of a second does not make the difference. -/
theorem staleness_iff {interval : Duration} (hpos : 0 < interval) {u d : Instant}
    (hud : u.ns ≤ d.ns) :
    (∀ (t : Throttler) (m : ThrottlerMetrics), t.config.enabled = true →
      Config.validateThrottler t.config = none → t.config.metricsUpdateInterval = interval →
      m.lastUpdated = u.unix → t.FollowsAge m u d) ↔
    2 * interval.toInt < 2 ^ 63 ∧
      ((d.ns : Int) - u.ns ≤ 2 * interval.toInt →
        (d.ns : Int) - u.ns ≤ 2 * interval.toInt - (u.ns % 1000000000 : Nat)) := by
  have hd := d.ns_lt
  constructor
  · intro h
    have hfollows := h (updatedEvery interval) (overloadedAt u) rfl
      (Config.validateThrottler_of_ok (updatedEvery_ok hpos)) rfl rfl
    -- an overloaded queue is not admitted, so the metrics are not stale
    have hfresh (hle : (d.ns : Int) - u.ns ≤ 2 * interval.toInt) :
        ¬ (updatedEvery interval).Stale (overloadedAt u) d := by
      intro hstale
      have hfst := hfollows.fresh hle
      rw [decision_of_stale hstale, verdict_overloadedAt] at hfst
      cases hfst
    rw [stale_iff (u := u) hpos rfl hud] at hfresh
    change _ → ¬ (2 ^ 63 ≤ 2 * interval.toInt ∨ 2 * interval.toInt < _) at hfresh
    omega
  · rintro ⟨hrange, hphase⟩ t m hen hvalid rfl hm
    have hstale := stale_iff hpos hm hud
    constructor
    · intro hle
      apply decision_fst hen
      rw [hstale]
      omega
    · intro hlt
      rw [decision_of_stale (hstale.mpr (Or.inr (by omega)))]

/-- Metrics stored on the second are used for two intervals: the overloaded queue is
    still seen after a whole second. -/
theorem staleness_iff_on_the_second :
    ofDefaults.FollowsAge (overloadedAt ⟨1000000000, by decide⟩)
      ⟨1000000000, by decide⟩ ⟨2000000000, by decide⟩ :=
  (staleness_iff (by decide) (by decide)).mpr (by decide) ofDefaults _ rfl
    (by decide +kernel) rfl rfl

/-- The metrics of an overloaded queue are half a second old, and the client is let in. -/
theorem fresh_metrics_bypassed : ∃ (t : Throttler) (m : ThrottlerMetrics) (u d : Instant),
    t.config.enabled = true ∧ Config.validateThrottler t.config = none ∧
    m.lastUpdated = u.unix ∧ u.ns ≤ d.ns ∧
    (d.ns : Int) - u.ns ≤ 2 * t.config.metricsUpdateInterval.toInt ∧
    t.verdict (t.overloadScore m.streamDepth (m.oldestMessageAge * second)) = .circuitOpen ∧
    t.decision m d = (.allow, 0) := by
  refine ⟨ofDefaults, overloadedAt ⟨1700000000600000000, by decide⟩,
    ⟨1700000000600000000, by decide⟩, ⟨1700000001100000000, by decide⟩, ?_⟩
  decide +kernel

-- ============================================================================
-- The advised delay
-- ============================================================================

/-- What `computeRetryAfter` looks at: no figure is negative, and the backlog is an
    int64. -/
structure Load where
  depth : Int64
  pending : Int64
  oldestAge : Duration
  depth_nonneg : 0 ≤ depth.toInt
  pending_nonneg : 0 ≤ pending.toInt
  oldestAge_nonneg : 0 ≤ oldestAge.toInt
  backlog_lt : depth.toInt + pending.toInt < 2 ^ 63

/-- No figure is larger. -/
instance : LE Load :=
  ⟨fun x y => x.depth ≤ y.depth ∧ x.pending ≤ y.pending ∧ x.oldestAge ≤ y.oldestAge⟩

instance (x y : Load) : Decidable (x ≤ y) := inferInstanceAs (Decidable (_ ∧ _))

/-- The factor for old messages. -/
def ageMultiplier (t : Throttler) (oldestAge : Duration) : Rat :=
  if oldestAge > t.config.maxMessageAge then float64 oldestAge / float64 t.config.maxMessageAge
  else 1

/-- The seconds it takes to drain the load, before they are truncated. -/
def drainTime (t : Throttler) (l : Load) : Rat :=
  ((l.depth.toInt + l.pending.toInt : Int) : Rat) / t.config.estimatedDrainRate *
    t.ageMultiplier l.oldestAge

/-- The delay a client is told to wait at this load. -/
def advice (t : Throttler) (l : Load) : Duration :=
  t.computeRetryAfter ⟨l.depth, l.pending, 0, 0⟩ l.depth l.oldestAge

/-- The two bounds of `computeRetryAfter`. -/
def clamp (t : Throttler) (d : Duration) : Duration :=
  let d := if d < t.config.minRetryAfter then t.config.minRetryAfter else d
  if d > t.config.maxRetryAfter then t.config.maxRetryAfter else d

theorem ageMultiplier_mono {t : Throttler} (hok : t.config.Ok) {a b : Duration} (h : a ≤ b) :
    t.ageMultiplier a ≤ t.ageMultiplier b := by
  have hpos := float64_pos hok.maxMessageAge
  unfold ageMultiplier
  by_cases ha : a > t.config.maxMessageAge
  · rw [if_pos ha, if_pos (Int64.lt_of_lt_of_le ha h)]
    exact div_le_div_of_nonneg_right (float64_mono h) hpos.le
  · rw [if_neg ha]
    split
    · next hb => exact (one_le_div hpos).mpr (float64_mono (Int64.le_of_lt hb))
    · exact le_refl _

theorem one_le_ageMultiplier {t : Throttler} (hok : t.config.Ok) (a : Duration) :
    1 ≤ t.ageMultiplier a := by
  have hpos := float64_pos hok.maxMessageAge
  unfold ageMultiplier
  split
  · next ha => exact (one_le_div hpos).mpr (float64_mono (Int64.le_of_lt ha))
  · exact le_refl _

theorem drainTime_nonneg {t : Throttler} (hok : t.config.Ok) (l : Load) :
    0 ≤ t.drainTime l := by
  have hbacklog : (0 : Rat) ≤ ((l.depth.toInt + l.pending.toInt : Int) : Rat) := by
    have := l.depth_nonneg
    have := l.pending_nonneg
    exact_mod_cast (by omega : (0 : Int) ≤ l.depth.toInt + l.pending.toInt)
  have hmult := one_le_ageMultiplier hok l.oldestAge
  have hrate := hok.estimatedDrainRate
  unfold drainTime
  exact mul_nonneg (div_nonneg hbacklog hrate.le) (zero_le_one.trans hmult)

theorem drainTime_mono {t : Throttler} (hok : t.config.Ok) {x y : Load} (h : x ≤ y) :
    t.drainTime x ≤ t.drainTime y := by
  obtain ⟨hdepth, hpending, hage⟩ := h
  rw [Int64.le_iff_toInt_le] at hdepth hpending
  have hrate := hok.estimatedDrainRate
  have hbacklog : ((x.depth.toInt + x.pending.toInt : Int) : Rat) ≤
      ((y.depth.toInt + y.pending.toInt : Int) : Rat) := by
    exact_mod_cast (by omega : x.depth.toInt + x.pending.toInt ≤ y.depth.toInt + y.pending.toInt)
  have hzero : (0 : Rat) ≤ ((y.depth.toInt + y.pending.toInt : Int) : Rat) := by
    have := y.depth_nonneg
    have := y.pending_nonneg
    exact_mod_cast (by omega : (0 : Int) ≤ y.depth.toInt + y.pending.toInt)
  unfold drainTime
  exact mul_le_mul (div_le_div_of_nonneg_right hbacklog hrate.le) (ageMultiplier_mono hok hage)
    (zero_le_one.trans (one_le_ageMultiplier hok _)) (div_nonneg hzero hrate.le)

theorem advice_eq {t : Throttler} (hok : t.config.Ok) (l : Load) :
    t.advice l = t.clamp (truncate (t.drainTime l) * second) := by
  have hlo := l.depth_nonneg
  have hlo' := l.pending_nonneg
  have hhi := l.backlog_lt
  have hbacklog : float64 (l.depth + l.pending) =
      ((l.depth.toInt + l.pending.toInt : Int) : Rat) := by
    unfold float64
    rw [Int64.toInt_add, Int.bmod_eq_of_le (by omega) (by omega)]
  have htime : (if l.oldestAge > t.config.maxMessageAge then
      float64 (l.depth + l.pending) / t.config.estimatedDrainRate *
        (float64 l.oldestAge / float64 t.config.maxMessageAge)
      else float64 (l.depth + l.pending) / t.config.estimatedDrainRate) = t.drainTime l := by
    unfold drainTime ageMultiplier
    rw [hbacklog]
    split
    · rfl
    · rw [mul_one]
  unfold advice computeRetryAfter clamp
  dsimp only
  rw [if_neg (not_le.mpr hok.estimatedDrainRate), htime]

/-- A drain time that is an int64 is truncated to its whole seconds. -/
theorem toInt_truncate {q : Rat} (hq : 0 ≤ q) (hlt : q < 2 ^ 63) :
    (truncate q).toInt = ⌊q⌋ := by
  have hfloor : q.num.tdiv q.den = ⌊q⌋ := by
    rw [Int.tdiv_eq_ediv_of_nonneg (Rat.num_nonneg.mpr hq), Rat.floor_def']
  have hlo : 0 ≤ ⌊q⌋ := Int.floor_nonneg.mpr hq
  have hhi : ⌊q⌋ < 2 ^ 63 := by
    rw [Int.floor_lt]
    exact_mod_cast hlt
  unfold truncate
  rw [hfloor]
  dsimp only
  rw [if_pos ⟨by omega, hhi⟩, Int64.toInt_ofInt_of_le (by omega) (by omega)]

/-- No wrap: the delay is that many seconds. -/
theorem toInt_seconds {q : Rat} (hq : 0 ≤ q) (hfits : ⌊q⌋ * 1000000000 < 2 ^ 63) :
    (truncate q * second).toInt = ⌊q⌋ * 1000000000 := by
  have hlo : 0 ≤ ⌊q⌋ := Int.floor_nonneg.mpr hq
  have hlt : q < 2 ^ 63 := by
    have hfloor : ⌊q⌋ < (2 ^ 63 : Int) := by omega
    rw [Int.floor_lt] at hfloor
    exact_mod_cast hfloor
  have hsec : second.toInt = 1000000000 := by decide
  rw [Int64.toInt_mul, toInt_truncate hq hlt, hsec]
  apply Int.bmod_eq_of_le
  · omega
  · omega

theorem toInt_clamp {t : Throttler} (hok : t.config.Ok) (d : Duration) :
    (t.clamp d).toInt =
      Min.min (Max.max d.toInt t.config.minRetryAfter.toInt) t.config.maxRetryAfter.toInt := by
  have hlt := Int64.lt_iff_toInt_lt.mp hok.max_gt_min
  unfold clamp
  dsimp only
  split
  · next h =>
      rw [Int64.lt_iff_toInt_lt] at h
      rw [if_neg (by rw [gt_iff_lt, Int64.lt_iff_toInt_lt]; omega)]
      omega
  · next h =>
      rw [Int64.lt_iff_toInt_lt] at h
      split
      · next h' =>
          rw [gt_iff_lt, Int64.lt_iff_toInt_lt] at h'
          omega
      · next h' =>
          rw [gt_iff_lt, Int64.lt_iff_toInt_lt] at h'
          omega

/-- The advice at two loads, the second at least as heavy, is within the bounds and in
    order. -/
structure Advises (t : Throttler) (x y : Load) : Prop where
  lower : t.config.minRetryAfter ≤ t.advice x
  upper : t.advice x ≤ t.config.maxRetryAfter
  lower' : t.config.minRetryAfter ≤ t.advice y
  upper' : t.advice y ≤ t.config.maxRetryAfter
  mono : t.advice x ≤ t.advice y

theorem advice_bounds {t : Throttler} (hok : t.config.Ok) (l : Load) :
    t.config.minRetryAfter ≤ t.advice l ∧ t.advice l ≤ t.config.maxRetryAfter := by
  have hlt := Int64.lt_iff_toInt_lt.mp hok.max_gt_min
  rw [Int64.le_iff_toInt_le, Int64.le_iff_toInt_le, advice_eq hok, toInt_clamp hok]
  omega

theorem advice_mono {t : Throttler} (hok : t.config.Ok) {x y : Load} (h : x ≤ y)
    (hfits : ⌊t.drainTime y⌋ * 1000000000 < 2 ^ 63) : t.advice x ≤ t.advice y := by
  have hfloor := Int.floor_le_floor (drainTime_mono hok h)
  rw [Int64.le_iff_toInt_le, advice_eq hok, advice_eq hok, toInt_clamp hok, toInt_clamp hok,
    toInt_seconds (drainTime_nonneg hok y) hfits,
    toInt_seconds (drainTime_nonneg hok x) (by omega)]
  omega

/-- A load of so many messages, none of them pending or old. -/
def queued (n : Int64) (h : 0 ≤ n.toInt) : Load where
  depth := n
  pending := 0
  oldestAge := 0
  depth_nonneg := h
  pending_nonneg := by decide
  oldestAge_nonneg := by decide
  backlog_lt := by
    have := Int64.toInt_lt n
    have hzero : (0 : Int64).toInt = 0 := by decide
    omega

/-- The last load whose drain time is a duration, at 100 messages a second. -/
def lastDuration : Load := queued 922337203600 (by decide)

/-- One second more. -/
def firstWrapped : Load := queued 922337203700 (by decide)

/-- The bounded and monotone advice, for all loads that take at most `limit` whole
    seconds to drain: it is given exactly if so many seconds are a duration. -/
theorem retryAfter_monotone_iff (limit : Nat) :
    (∀ (t : Throttler), t.config.enabled = true → Config.validateThrottler t.config = none →
      ∀ (x y : Load), x ≤ y → t.drainTime y < 2 ^ 63 → ⌊t.drainTime y⌋ ≤ limit →
      t.Advises x y) ↔ limit * 1000000000 < 2 ^ 63 := by
  constructor
  · intro h
    by_contra hwraps
    have hle : lastDuration ≤ firstWrapped := by decide
    have htime : ofDefaults.drainTime firstWrapped = 9223372037 := by decide +kernel
    have hadvises := h ofDefaults (by decide) (by decide +kernel) _ _ hle
      (by rw [htime]; norm_num)
      (by rw [htime]; change ⌊((9223372037 : Int) : Rat)⌋ ≤ _; rw [Int.floor_intCast]; omega)
    have hmono := hadvises.mono
    revert hmono
    decide +kernel
  · intro hlimit t hen hvalid x y hxy hrange hle
    have hok := Config.validateThrottler_ok hen hvalid
    have hx := advice_bounds hok x
    have hy := advice_bounds hok y
    exact ⟨hx.1, hx.2, hy.1, hy.2, advice_mono hok hxy (by omega)⟩

/-- At 9223372037 seconds to drain the default configuration goes back from its largest
    delay to its smallest. -/
theorem heavier_load_sooner : ∃ (t : Throttler) (x y : Load), t.config.enabled = true ∧
    Config.validateThrottler t.config = none ∧ x ≤ y ∧ t.drainTime y < 2 ^ 63 ∧
    t.advice x = t.config.maxRetryAfter ∧ t.advice y = t.config.minRetryAfter := by
  refine ⟨ofDefaults, lastDuration, firstWrapped, ?_⟩
  decide +kernel

end Throttler

end LogPipeline.Ingestion
