/-
Module: Plumego.Go.Time
Purpose: Instants and 64-bit integers: the zero time, `UnixNano` with its
  wrap-around, and the conversions between `int64` and `uint64`.
Trusted boundary: an instant is its distance from the Unix epoch in
  nanoseconds; time zones and monotonic readings are not modelled.
Main exports: Time, zeroTime, isZero, unixNano, timeSub, wrapInt64, toUint64,
  toInt64
-/
import Mathlib.Data.Int.Basic
import Mathlib.Tactic.Ring

namespace Plumego.Go

/-- `int64` arithmetic wraps around at 64 bits. -/
def wrapInt64 (value : Int) : Int := value.bmod (2 ^ 64)

/-- An instant, in nanoseconds since the Unix epoch. -/
abbrev Time := Int

/-- `time.Time{}`: the first of January of the year 1. -/
def zeroTime : Time := -62135596800000000000

/-- `Time.IsZero`. -/
def isZero (instant : Time) : Bool := instant == zeroTime

/-- `Time.UnixNano`, defined modulo the 64-bit range. -/
def unixNano (instant : Time) : Int := wrapInt64 instant

/-- `uint64(v)` of an `int64`. -/
def toUint64 (value : Int) : Nat := (value % 2 ^ 64).toNat

/-- `int64(u)` of a `uint64`. -/
def toInt64 (value : Nat) : Int := wrapInt64 value

/-- The longest `time.Duration`. -/
def maxDuration : Int := 2 ^ 63 - 1

/-- `Time.Sub`: the distance of two instants, cut to the range of a
`time.Duration`. -/
def timeSub (instant other : Int) : Int :=
  if instant - other < -2 ^ 63 then -2 ^ 63
  else if maxDuration < instant - other then maxDuration
  else instant - other

/-- A value in the range of `int64`. -/
def InInt64 (value : Int) : Prop := -2 ^ 63 ≤ value ∧ value < 2 ^ 63

/-- The clock never goes back. -/
def NonDecreasing (clock : Nat → Int) : Prop :=
  ∀ {earlier later : Nat}, earlier ≤ later → clock earlier ≤ clock later

theorem wrapInt64_of_inInt64 {value : Int} (range : InInt64 value) :
    wrapInt64 value = value := by
  obtain ⟨lower, upper⟩ := range
  unfold wrapInt64
  rw [Int.bmod_def]
  split <;> omega

theorem wrapInt64_dvd (value : Int) : (2 ^ 64 : Int) ∣ value - wrapInt64 value := by
  unfold wrapInt64
  rw [Int.bmod_def]
  split <;> omega

theorem wrapInt64_eq {value target : Int} (range : InInt64 target) (apart : (2 ^ 64 : Int) ∣ value - target) :
    wrapInt64 value = target := by
  obtain ⟨lower, upper⟩ := range
  unfold wrapInt64
  rw [Int.bmod_def]
  split <;> omega

theorem inInt64_wrapInt64 (value : Int) : InInt64 (wrapInt64 value) := by
  unfold InInt64 wrapInt64
  rw [Int.bmod_def]
  split <;> omega

theorem toUint64_lt (value : Int) : toUint64 value < 2 ^ 64 := by
  unfold toUint64
  omega

/-- The distance from an earlier instant is positive. -/
theorem timeSub_pos {instant other : Int} (later : other < instant) : 0 < timeSub instant other := by
  unfold timeSub maxDuration
  split
  · omega
  · split <;> omega

/-- The two conversions are inverse on `int64`. -/
theorem toInt64_toUint64 {value : Int} (range : InInt64 value) :
    toInt64 (toUint64 value) = value := by
  obtain ⟨lower, upper⟩ := range
  unfold toInt64 toUint64 wrapInt64
  rw [Int.bmod_def]
  split <;> omega

/-- Wrapping a non-negative value never makes it larger. -/
theorem wrapInt64_le {value : Int} (nonnegative : 0 ≤ value) :
    wrapInt64 value ≤ value := by
  unfold wrapInt64
  rw [Int.bmod_def]
  split <;> omega

end Plumego.Go
