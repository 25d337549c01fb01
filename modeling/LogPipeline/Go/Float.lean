/-
  LogPipeline.Go.Float

  Numbers of a JSON text and `float64`.

  `encoding/json` stores a number in an `interface{}` as the nearest `float64`, an error if
  there is none in range, and writes a `float64` with the fewest digits that are read back as
  the same one.  `Number.round` is the two together.

  - `Number.round_round`: what was written is read and written again unchanged.
-/

import Mathlib.Algebra.Group.Int.Defs
import Mathlib.Algebra.Group.Nat.Defs
import Mathlib.Tactic.Common

namespace LogPipeline.Go

/-- A number in a JSON text: an integer, or one with a fraction or an exponent, which is
    `mant * 10 ^ exp`.  The sign of a zero is not kept. -/
inductive Number where
  | int (n : Int)
  | dec (mant exp : Int)
deriving DecidableEq

namespace Number

def mant : Number → Int
  | .int n => n
  | .dec m _ => m

def exp : Number → Int
  | .int _ => 0
  | .dec _ e => e

/-- The number in an error message, one of several ways to write it. -/
def text : Number → String
  | .int n => n.repr
  | .dec m e => m.repr ++ "e" ++ e.repr

end Number

/-- A finite `float64`, `mant * 2 ^ exp`. -/
structure Float64 where
  mant : Int
  exp : Int
deriving DecidableEq

/-- The largest `k` with `b ^ k ≤ n / d`. -/
def floorLog (b n d : Nat) : Int :=
  if d ≤ n then (Nat.toDigits b (n / d)).length - 1 else -(Nat.toDigits b ((d - 1) / n)).length

/-- `n / d` as a whole number, a tie to the even one. -/
def roundEven (n d : Nat) : Nat :=
  if 2 * (n % d) < d ∨ (2 * (n % d) = d ∧ n / d % 2 = 0) then n / d else n / d + 1

/-- `n / d` in units of `b ^ e`. -/
def roundTo (b n d : Nat) (e : Int) : Nat := roundEven (n * b ^ (-e).toNat) (d * b ^ e.toNat)

namespace Float64

def zero : Float64 := ⟨0, -1074⟩

/-- The nearest `float64`; `none` if that is an infinity. -/
def ofFraction (sign : Int) (n d : Nat) : Option Float64 :=
  let e := max (-1074) (floorLog 2 n d - 52)
  let m := roundTo 2 n d e
  -- 53 bits can round up to 54
  let f : Float64 := if m = 2 ^ 53 then ⟨sign * 2 ^ 52, e + 1⟩ else ⟨sign * m, e⟩
  if f.exp ≤ 971 then some f else none

/-- The numbers that are tried for a `float64`, with one digit, two digits and so on.  An
    integer below `10 ^ 21` is written without an exponent.  Seventeen digits are enough. -/
def candidates (f : Float64) : List Number :=
  if f.mant = 0 then [.int 0]
  else
    let n := f.mant.natAbs * 2 ^ f.exp.toNat
    let d := 2 ^ (-f.exp).toNat
    (List.range 17).map fun (k : Nat) =>
      let e := floorLog 10 n d - k
      let m := f.mant.sign * roundTo 10 n d e
      if 0 ≤ e ∧ floorLog 10 n d < 21 then .int (m * 10 ^ e.toNat) else .dec m e

end Float64

namespace Number

/-- `strconv.ParseFloat`.  A number far out of range is not multiplied out. -/
def parseFloat (x : Number) : Option Float64 :=
  let point : Int := (Nat.toDigits 10 x.mant.natAbs).length + x.exp
  if x.mant = 0 ∨ point < -330 then some .zero
  else if 310 < point then none
  else Float64.ofFraction x.mant.sign (x.mant.natAbs * 10 ^ x.exp.toNat) (10 ^ (-x.exp).toNat)

/-- A `float64` as it is written: the first candidate that is read back as the same one. -/
def formatFloat (f : Float64) : Option Number :=
  f.candidates.find? fun x => decide (x.parseFloat = some f)

/-- A number as it is written after it was read. -/
def round (x : Number) : Option Number := x.parseFloat.bind formatFloat

theorem round_round {x y : Number} (h : x.round = some y) : y.round = some y := by
  obtain ⟨f, -, hy⟩ := Option.bind_eq_some_iff.mp h
  have hf : y.parseFloat = some f := of_decide_eq_true (List.find?_some hy :)
  rw [round, hf, Option.bind_some, hy]

example : (Number.dec 150 (-2)).round = some (.dec 15 (-1)) := by decide +kernel

example : (Number.int 9007199254740993).round = some (.int 9007199254740992) := by decide +kernel

example : (Number.dec 1 400).round = none := by decide +kernel

end Number

end LogPipeline.Go
