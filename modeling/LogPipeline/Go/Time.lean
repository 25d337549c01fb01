/-
  LogPipeline.Go.Time

  Instants of the host clock and RFC 3339 timestamps.

  `time.Now` is an `Instant`, nanoseconds since the epoch within the range in
  which `UnixNano` is defined.  A decoded `time.Time` is a `Timestamp`: a text
  the RFC 3339 parser accepts.  The parser takes an offset of 24 hours or more that
  `MarshalJSON` refuses to write.
-/

import LogPipeline.Go.Json
import LogPipeline.Go.Strconv

namespace LogPipeline.Go

-- ============================================================================
-- The clock
-- ============================================================================

/-- A reading of the host clock. -/
structure Instant where
  ns : Nat
  ns_lt : ns < 2 ^ 63
deriving DecidableEq

namespace Instant

/-- The Unix epoch. -/
def epoch : Instant := ⟨0, by decide⟩

/-- `Time.Unix`: whole seconds. -/
def unix (t : Instant) : Int64 := Int64.ofNat (t.ns / 1000000000)

/-- `Time.UnixMilli`. -/
def unixMilli (t : Instant) : Int64 := Int64.ofNat (t.ns / 1000000)

/-- `time.Since(time.Unix(sec, 0))`: the difference, saturated to a `Duration`. -/
def since (t : Instant) (sec : Int64) : Duration :=
  let d : Int := t.ns - sec.toInt * 1000000000
  if d < -2 ^ 63 then Int64.minValue
  else if 2 ^ 63 ≤ d then Int64.maxValue
  else Int64.ofInt d

theorem unix_toInt (t : Instant) : t.unix.toInt = (t.ns / 1000000000 : Nat) := by
  have h := t.ns_lt
  unfold unix
  rw [Int64.toInt_ofNat_of_lt (by omega)]

theorem unixMilli_toInt (t : Instant) : t.unixMilli.toInt = (t.ns / 1000000 : Nat) := by
  have h := t.ns_lt
  unfold unixMilli
  rw [Int64.toInt_ofNat_of_lt (by omega)]

/-- `Since` as a number: the difference, cut off at the ends of the range. -/
theorem since_toInt (t : Instant) (sec : Int64) : (t.since sec).toInt =
    max (-2 ^ 63) (min (2 ^ 63 - 1) (t.ns - sec.toInt * 1000000000)) := by
  simp only [since]
  split
  · rw [Int64.toInt_minValue]
    omega
  · split
    · rw [Int64.toInt_maxValue]
      omega
    · rw [Int64.toInt_ofInt_of_le (by omega) (by omega)]
      omega

/-- More time has passed at a later reading of the clock. -/
theorem since_le_since {t t' : Instant} (h : t.ns ≤ t'.ns) (sec : Int64) :
    t.since sec ≤ t'.since sec := by
  rw [Int64.le_iff_toInt_le, since_toInt, since_toInt]
  omega

end Instant

-- ============================================================================
-- RFC 3339
-- ============================================================================

/-- Two digits as a number. -/
def num2 (a b : Char) : Option Nat := parseDigits [a, b]

def isLeap (y : Nat) : Bool := y % 4 == 0 && (y % 100 != 0 || y % 400 == 0)

def daysIn (month year : Nat) : Nat :=
  if month = 2 then (if isLeap year then 29 else 28)
  else if month = 4 ∨ month = 6 ∨ month = 9 ∨ month = 11 then 30 else 31

/-- The offset from UTC: `Z` or a signed `hh:mm`. -/
def zoneOk : List Char → Bool
  | ['Z'] => true
  | [sign, h1, h2, ':', m1, m2] =>
      (sign == '+' || sign == '-') &&
      (num2 h1 h2).any (· ≤ 24) && (num2 m1 m2).any (· ≤ 60)
  | _ => false

/-- An optional fraction of a second, then the offset. -/
def fractionOk : List Char → Bool
  | sep :: d :: cs =>
      if (sep == '.' || sep == ',') && d.isDigit then zoneOk (cs.dropWhile Char.isDigit)
      else zoneOk (sep :: d :: cs)
  | cs => zoneOk cs

/-- Minutes and seconds, then the rest. -/
def minutesOk : List Char → Bool
  | ':' :: m1 :: m2 :: ':' :: s1 :: s2 :: cs =>
      (num2 m1 m2).any (· ≤ 59) && (num2 s1 s2).any (· ≤ 59) && fractionOk cs
  | _ => false

/-- The hour, one digit or two, then the rest. -/
def hourOk : List Char → Bool
  | h1 :: h2 :: cs =>
      if h2.isDigit then (num2 h1 h2).any (· ≤ 23) && minutesOk cs
      else h1.isDigit && minutesOk (h2 :: cs)
  | _ => false

/-- Whether `time.Time` unmarshals from the text. -/
def rfc3339 (s : String) : Bool :=
  match s.toList with
  | y1 :: y2 :: y3 :: y4 :: '-' :: m1 :: m2 :: '-' :: d1 :: d2 :: 'T' :: cs =>
      match parseDigits [y1, y2, y3, y4], num2 m1 m2, num2 d1 d2 with
      | some y, some m, some d =>
          1 ≤ m && m ≤ 12 && 1 ≤ d && d ≤ daysIn m y && hourOk cs
      | _, _, _ => false
  | _ => false

/-- A `time.Time`, by an RFC 3339 text for it. -/
@[ext] structure Timestamp where
  text : String
  valid : rfc3339 text = true

example : rfc3339 "2024-02-29T23:59:59.5+01:00" = true := by decide +kernel

/-- The zero time. -/
def Timestamp.zero : Timestamp := ⟨"0001-01-01T00:00:00Z", by decide +kernel⟩

-- ============================================================================
-- The instant of a timestamp
-- ============================================================================

/-- The offset from UTC, in seconds. -/
def zoneOffset : List Char → Option Int
  | ['Z'] => some 0
  | [sign, h1, h2, ':', m1, m2] => do
      let h ← num2 h1 h2
      let m ← num2 m1 m2
      return if sign = '-' then -((h * 60 + m) * 60) else (h * 60 + m) * 60
  | _ => none

/-- Whether the fraction is zero, to the nanosecond, and the offset. -/
def fractionZone : List Char → Option (Bool × Int)
  | sep :: d :: cs =>
      if (sep == '.' || sep == ',') && d.isDigit then
        (zoneOffset (cs.dropWhile Char.isDigit)).map fun off =>
          ((((d :: cs).takeWhile Char.isDigit).take 9).all (· == '0'), off)
      else (zoneOffset (sep :: d :: cs)).map fun off => (true, off)
  | cs => (zoneOffset cs).map fun off => (true, off)

/-- The seconds of the minutes and seconds, whether the fraction is zero, the offset. -/
def minutesZone : List Char → Option (Int × Bool × Int)
  | ':' :: m1 :: m2 :: ':' :: s1 :: s2 :: cs => do
      let m ← num2 m1 m2
      let s ← num2 s1 s2
      let (frac, off) ← fractionZone cs
      return (m * 60 + s, frac, off)
  | _ => none

/-- The time of day in seconds, with what follows it. -/
def hourZone : List Char → Option (Int × Bool × Int)
  | h1 :: h2 :: cs =>
      if h2.isDigit then do
        let h ← num2 h1 h2
        let (s, frac, off) ← minutesZone cs
        return (h * 3600 + s, frac, off)
      else do
        let h ← parseDigits [h1]
        let (s, frac, off) ← minutesZone (h2 :: cs)
        return (h * 3600 + s, frac, off)
  | _ => none

/-- The days of the year before the first of the month. -/
def daysBefore (year : Nat) : Nat → Nat
  | 0 | 1 => 0
  | m + 2 => daysBefore year (m + 1) + daysIn (m + 1) year

/-- The days from 1 January of the year 1 to the date. -/
def daysSinceZero (y m d : Nat) : Int :=
  let before : Int := y - 1
  365 * before + before / 4 - before / 100 + before / 400 + daysBefore y m + d - 1

/-- The seconds from the zero time to the instant, whether it is a whole second, and the
    offset. -/
def instantOf (s : String) : Option (Int × Bool × Int) :=
  match s.toList with
  | y1 :: y2 :: y3 :: y4 :: '-' :: m1 :: m2 :: '-' :: d1 :: d2 :: 'T' :: cs => do
      let y ← parseDigits [y1, y2, y3, y4]
      let m ← num2 m1 m2
      let d ← num2 d1 d2
      let (s, frac, off) ← hourZone cs
      return (daysSinceZero y m d * 86400 + s - off, frac, off)
  | _ => none

namespace Timestamp

/-- `Time.IsZero`. -/
def isZero (t : Timestamp) : Bool :=
  match instantOf t.text with
  | some (s, whole, _) => s == 0 && whole
  | none => false

/-- The offset is less than 24 hours either way, so that its hour has two digits in range. -/
def ZoneInRange (t : Timestamp) : Prop := ∀ x ∈ instantOf t.text, x.2.2.natAbs < 86400

instance (t : Timestamp) : Decidable t.ZoneInRange :=
  inferInstanceAs (Decidable (∀ x ∈ instantOf t.text, x.2.2.natAbs < 86400))

/-- `MarshalJSON`. -/
def marshalJSON (t : Timestamp) : Except String Json :=
  if t.ZoneInRange then .ok (.str t.text)
  else .error "Time.MarshalJSON: timezone hour outside of range [0,23]"

theorem zero_zoneInRange : zero.ZoneInRange := by decide +kernel

end Timestamp

example : Timestamp.zero.isZero = true := by decide +kernel

example : ¬ Timestamp.ZoneInRange ⟨"2024-01-01T00:00:00+23:60", by decide +kernel⟩ := by
  decide +kernel

-- ============================================================================
-- Fields of type time.Time
-- ============================================================================

/-- A `time.Time` field. -/
def Field.time {α : Type} (name : String) (get : α → Timestamp) (set : Timestamp → α → α) :
    Field α where
  name := name
  enc x :=
    match (get x).marshalJSON with
    | .ok j => .ok (some j)
    | .error err => .error ("json: error calling MarshalJSON for type time.Time: " ++ err)
  dec
    | .str s, x => if h : rfc3339 s = true then .ok (set ⟨s, h⟩ x) else .error (.malformed s)
    | .null, x => .ok x
    | j, _ => .error (.mismatch j.kind "time.Time")

@[simp] theorem Field.time_enc_ok {α : Type} (name : String) (x : α) (get : α → Timestamp)
    (set : Timestamp → α → α) :
    (∃ v, (Field.time name get set).enc x = .ok v) ↔ (get x).ZoneInRange := by
  by_cases h : (get x).ZoneInRange <;> simp [Field.time, Timestamp.marshalJSON, h]

theorem Field.restore_time {α : Type} (name : String) {x : α} (y : α) (fs : List (Field α))
    {get : α → Timestamp} (set : Timestamp → α → α) (h : (get x).ZoneInRange) :
    Struct.restore x y (Field.time name get set :: fs) = Struct.restore x (set (get x) y) fs := by
  simp [Struct.restore, Field.time, Timestamp.marshalJSON, h, (get x).valid]

end LogPipeline.Go
