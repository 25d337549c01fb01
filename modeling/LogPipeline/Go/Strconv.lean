/-
  LogPipeline.Go.Strconv

  The parts of Go's `strconv`, `fmt`, `strings` and `time` that decide how
  numbers and durations are written and read back.

  `int`, `int64` and `time.Duration` are `Int64` (the build target has 64-bit
  `int`), so arithmetic on them wraps as in Go.

  - `parseInt_formatInt`: what `%d` writes, `strconv.ParseInt` reads back.
  - `append_sep_inj`: a text that ends in a separator and a number determines
    both parts; names and keys built that way do not collide.
-/

import Mathlib.Algebra.Group.Int.Defs
import Mathlib.Algebra.Group.Nat.Defs
import Mathlib.Data.List.Infix
import Mathlib.Data.Nat.Basic
import Mathlib.Tactic.Common

namespace LogPipeline.Go

/-- A `time.Duration`: nanoseconds. -/
abbrev Duration := Int64

/-- `time.Millisecond`. -/
def millisecond : Duration := 1000000

/-- `time.Second`. -/
def second : Duration := 1000000000

-- ============================================================================
-- Decimal integers
-- ============================================================================

/-- The `%d` verb. -/
def formatInt (n : Int64) : String := n.toInt.repr

/-- The digits of a number without sign; `none` for anything else. -/
def parseDigits (cs : List Char) : Option Nat :=
  if cs ≠ [] ∧ cs.all Char.isDigit then some (Nat.ofDigitChars 10 cs 0) else none

/-- The number with the given sign, if it is in the range of an `int64`. -/
def signed (neg : Bool) (n : Nat) : Option Int64 :=
  let i : Int := if neg then -(n : Int) else n
  if -2 ^ 63 ≤ i ∧ i < 2 ^ 63 then some (Int64.ofInt i) else none

/-- `strconv.ParseInt(s, 10, 64)`, and with it `strconv.Atoi`; `none` for a
    syntax or range error. -/
def parseInt (s : String) : Option Int64 :=
  match s.toList with
  | '-' :: cs => (parseDigits cs).bind (signed true)
  | '+' :: cs => (parseDigits cs).bind (signed false)
  | cs => (parseDigits cs).bind (signed false)

theorem toDigits_isDigit (n : Nat) : ∀ c ∈ Nat.toDigits 10 n, c.isDigit = true :=
  fun _ hc => Nat.isDigit_of_mem_toDigits (by decide) (by decide) hc

theorem parseDigits_toDigits (n : Nat) : parseDigits (Nat.toDigits 10 n) = some n := by
  have hne : Nat.toDigits 10 n ≠ [] := Nat.toDigits_ne_nil
  have hall : (Nat.toDigits 10 n).all Char.isDigit = true := by
    rw [List.all_eq_true]
    exact toDigits_isDigit n
  rw [parseDigits, if_pos ⟨hne, hall⟩, Nat.ofDigitChars_ten_toDigits]

/-- A digit string is read without a sign. -/
theorem parseInt_repr (n : Nat) : parseInt n.repr = signed false n := by
  unfold parseInt
  rw [Nat.toList_repr]
  split
  · next cs h =>
      have := toDigits_isDigit n '-' (by rw [h]; exact List.mem_cons_self ..)
      exact absurd this (by decide)
  · next cs h =>
      have := toDigits_isDigit n '+' (by rw [h]; exact List.mem_cons_self ..)
      exact absurd this (by decide)
  · rw [parseDigits_toDigits, Option.bind_some]

theorem parseInt_neg_repr (n : Nat) : parseInt ("-" ++ n.repr) = signed true n := by
  have h : ("-" ++ n.repr).toList = '-' :: Nat.toDigits 10 n := by
    rw [String.toList_append, Nat.toList_repr]
    rfl
  unfold parseInt
  simp only [h]
  rw [parseDigits_toDigits, Option.bind_some]

/-- What `%d` writes, `ParseInt` reads back. -/
theorem parseInt_formatInt (n : Int64) : parseInt (formatInt n) = some n := by
  have hlo := Int64.le_toInt n
  have hhi := Int64.toInt_lt n
  unfold formatInt
  rw [Int.repr_eq_if]
  split
  · next h =>
      rw [parseInt_repr, signed]
      have : ((n.toInt.toNat : Nat) : Int) = n.toInt := Int.toNat_of_nonneg h
      simp only [Bool.false_eq_true, if_false, this]
      rw [if_pos ⟨hlo, hhi⟩, Int64.ofInt_toInt]
  · next h =>
      rw [parseInt_neg_repr, signed]
      have : -(((-n.toInt).toNat : Nat) : Int) = n.toInt := by omega
      simp only [if_true, this]
      rw [if_pos ⟨hlo, hhi⟩, Int64.ofInt_toInt]

theorem formatInt_injective {m n : Int64} (h : formatInt m = formatInt n) : m = n := by
  have := congrArg parseInt h
  rw [parseInt_formatInt, parseInt_formatInt] at this
  exact Option.some.inj this

/-- A formatted number is a minus sign and digits. -/
theorem formatInt_chars (n : Int64) : ∀ c ∈ (formatInt n).toList, c = '-' ∨ c.isDigit = true := by
  intro c hc
  unfold formatInt at hc
  rw [Int.repr_eq_if] at hc
  split at hc
  · rw [Nat.toList_repr] at hc
    exact Or.inr (toDigits_isDigit _ c hc)
  · rw [String.toList_append, Nat.toList_repr] at hc
    rcases List.mem_append.mp hc with hc | hc
    · exact Or.inl (by simpa using hc)
    · exact Or.inr (toDigits_isDigit _ c hc)

-- ============================================================================
-- Texts that end in a separator and a number
-- ============================================================================

theorem append_cons_inj {α : Type} {c : α} {u v a b : List α} (hu : c ∉ u) (hv : c ∉ v)
    (h : u ++ c :: a = v ++ c :: b) : u = v ∧ a = b := by
  induction u generalizing v with
  | nil =>
      cases v with
      | nil => exact ⟨rfl, by simpa using h⟩
      | cons y v =>
          simp only [List.nil_append, List.cons_append, List.cons.injEq] at h
          exact absurd (by rw [h.1]; exact List.mem_cons_self ..) hv
  | cons x u ih =>
      cases v with
      | nil =>
          simp only [List.nil_append, List.cons_append, List.cons.injEq] at h
          exact absurd (by rw [h.1]; exact List.mem_cons_self ..) hu
      | cons y v =>
          simp only [List.cons_append, List.cons.injEq] at h
          obtain ⟨huv, hab⟩ := ih (fun hc => hu (List.mem_cons_of_mem _ hc))
            (fun hc => hv (List.mem_cons_of_mem _ hc)) h.2
          exact ⟨by rw [h.1, huv], hab⟩

/-- Two texts `a:m` and `b:n` are equal only if their parts are. -/
theorem append_sep_inj {a b : String} {m n : Int64}
    (h : a ++ ":" ++ formatInt m = b ++ ":" ++ formatInt n) : a = b ∧ m = n := by
  have hcolon : ∀ k : Int64, ':' ∉ (formatInt k).toList.reverse := by
    intro k hk
    rcases formatInt_chars k ':' (List.mem_reverse.mp hk) with h | h
    · exact absurd h (by decide)
    · exact absurd h (by decide)
  -- read from the right, the separator is the first colon
  have hrev := congrArg (fun s : String => s.toList.reverse) h
  have hsep : (":" : String).toList = [':'] := rfl
  simp only [String.toList_append, hsep, List.reverse_append, List.reverse_singleton,
    List.singleton_append] at hrev
  obtain ⟨hmn, hab⟩ := append_cons_inj (hcolon m) (hcolon n) hrev
  refine ⟨String.toList_inj.mp (List.reverse_injective hab), ?_⟩
  exact formatInt_injective (String.toList_inj.mp (List.reverse_injective hmn))

-- ============================================================================
-- Strings
-- ============================================================================

/-- `strings.Contains`. -/
def contains (s sub : String) : Bool := decide (sub.toList <:+: s.toList)

/-- `strings.CutPrefix`. -/
def cutPrefix (s pre : String) : Option String :=
  if pre.toList <+: s.toList then some (String.ofList (s.toList.drop pre.toList.length)) else none

theorem cutPrefix_eq_some {s pre rest : String} :
    cutPrefix s pre = some rest ↔ s = pre ++ rest := by
  unfold cutPrefix
  constructor
  · intro h
    split at h
    · next hpre =>
        cases h
        rw [← String.toList_inj, String.toList_append, String.toList_ofList]
        exact (List.prefix_iff_eq_append.mp hpre).symm
    · cases h
  · rintro rfl
    have hpre : pre.toList <+: (pre ++ rest).toList := by
      rw [String.toList_append]
      exact List.prefix_append ..
    rw [if_pos hpre, String.toList_append, List.drop_left, String.ofList_toList]

/-- `strings.Split` at a one-character separator. -/
def split (s : String) (sep : Char) : List String :=
  (s.toList.splitOn sep).map String.ofList

/-- `unicode.ToLower`, as far as it can produce an ASCII letter: the ASCII
    capitals, the dotted capital I and the Kelvin sign. -/
def lowerRune (c : Char) : Char :=
  if c = '\u0130' then 'i' else if c = '\u212a' then 'k' else c.toLower

/-- `strings.ToLower`, for comparison with ASCII texts. -/
def toLower (s : String) : String := String.ofList (s.toList.map lowerRune)

/-- The part before the first separator is the first part of a split. -/
theorem split_head {a b : String} {c : Char} (h : c ∉ a.toList) :
    (split (a ++ String.singleton c ++ b) c).head? = some a := by
  unfold split
  have hs : (String.singleton c).toList = [c] := by simp
  rw [String.toList_append, String.toList_append, hs, List.append_assoc, List.singleton_append]
  unfold List.splitOn
  rw [List.splitOnP_append_cons_of_forall_mem]
  · simp
  · intro x hx
    simp only [beq_eq_false_iff_ne, ne_eq]
    rintro rfl
    exact h hx
  · simp

-- ============================================================================
-- Durations and fixed-point numbers
-- ============================================================================

/-- `k` digits of `n`, padded with zeros on the left. -/
def padded (k n : Nat) : List Char :=
  let ds := Nat.toDigits 10 n
  List.replicate (k - ds.length) '0' ++ ds

/-- The fraction of `v / 10 ^ prec` as text, without trailing zeros, and the
    integer part. -/
def fmtFrac (v prec : Nat) : String × Nat :=
  let ds := ((padded prec (v % 10 ^ prec)).reverse.dropWhile (· == '0')).reverse
  (if ds = [] then "" else "." ++ String.ofList ds, v / 10 ^ prec)

/-- `u` nanoseconds, as `Duration.String` writes them. -/
def formatNanos (u : Nat) : String :=
  if u = 0 then "0s"
  else if u < 1000 then u.repr ++ "ns"
  else if u < 1000000 then (fmtFrac u 3).2.repr ++ (fmtFrac u 3).1 ++ "µs"
  else if u < 1000000000 then (fmtFrac u 6).2.repr ++ (fmtFrac u 6).1 ++ "ms"
  else
    let secs := (fmtFrac u 9).2
    let tail := (secs % 60).repr ++ (fmtFrac u 9).1 ++ "s"
    if secs < 60 then tail
    else if secs < 3600 then (secs / 60).repr ++ "m" ++ tail
    else (secs / 3600).repr ++ "h" ++ (secs / 60 % 60).repr ++ "m" ++ tail

/-- `Duration.String`. -/
def formatDuration (d : Duration) : String :=
  if d.toInt < 0 then "-" ++ formatNanos d.toInt.natAbs else formatNanos d.toInt.natAbs

/-- The `%.2f` verb on an exactly represented number: round half to even. -/
def formatFixed2 (q : Rat) : String :=
  let n := q.num.natAbs * 100 / q.den
  let rem := q.num.natAbs * 100 % q.den
  let n := if q.den < 2 * rem ∨ (2 * rem = q.den ∧ n % 2 = 1) then n + 1 else n
  (if q.num < 0 then "-" else "") ++ (n / 100).repr ++ "." ++ String.ofList (padded 2 (n % 100))

example : formatDuration 90500000000 = "1m30.5s" := by decide +kernel

end LogPipeline.Go
