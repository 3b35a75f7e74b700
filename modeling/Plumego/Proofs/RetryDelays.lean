/-
Module: Plumego.Proofs.RetryDelays
Purpose: The delays between retries stay between the initial delay and the limit and never
  shrink, up to the retry whose product leaves the 64-bit range.
Trusted boundary: as for the delays.
Main exports: BoundedTo, safeExponentialBackoff_bounded, retry_delays_bounded_iff
-/
import Mathlib.Algebra.Order.Ring.Int
import Mathlib.Tactic.Positivity
import Plumego.PubSub.RetryDelay

namespace Plumego.PubSub.Retry

open Plumego.Go

/-- The delays for counts up to `last` lie between `low` and `high` and do not shrink. -/
def BoundedTo (delay : Int → Int) (low high last : Int) : Prop :=
  ∀ count, 0 ≤ count → count ≤ last →
    (low ≤ delay count ∧ delay count ≤ high) ∧
      ∀ earlier, 0 ≤ earlier → earlier ≤ count → delay earlier ≤ delay count

variable {base limit count : Int}

theorem clamp_eq_min (limit delay : Int) : clamp limit delay = min limit delay := by
  unfold clamp
  split <;> omega

/-- A product past the range by less than its width turns negative. -/
theorem wrapInt64_neg {value : Int} (low : 2 ^ 63 ≤ value) (high : value < 2 ^ 64) :
    wrapInt64 value < 0 := by
  unfold wrapInt64
  rw [Int.bmod_def]
  split <;> omega

/-! ## Exponential delays -/

theorem toUint64_of_nonneg (lower : 0 ≤ count) (upper : count < 2 ^ 63) :
    toUint64 count = count.toNat := by
  unfold toUint64
  rw [Int.emod_eq_of_lt lower (by omega)]

/-- Wrapping the power first makes no difference to the product. -/
theorem exponential_eq (lower : 0 ≤ count) (upper : count < 2 ^ 63) :
    calculateRetryDelay ⟨.exponentialBackoff, base, limit⟩ count =
      min limit (wrapInt64 (base * 2 ^ count.toNat)) := by
  simp only [calculateRetryDelay, clamp_eq_min, shiftLeft, wrapInt64, one_mul, Int.mul_bmod_bmod,
    toUint64_of_nonneg lower upper]

theorem pow_toNat_le {earlier : Int} (ordered : earlier ≤ count) :
    (2 : Int) ^ earlier.toNat ≤ 2 ^ count.toNat :=
  pow_le_pow_right₀ (by decide) (Int.toNat_le_toNat ordered)

theorem exponential_of_fits (positive : 0 < base) (lower : 0 ≤ count) (upper : count < 2 ^ 63)
    (fits : base * 2 ^ count.toNat < 2 ^ 63) :
    calculateRetryDelay ⟨.exponentialBackoff, base, limit⟩ count =
      min limit (base * 2 ^ count.toNat) := by
  have nonneg : 0 ≤ base * 2 ^ count.toNat := by positivity
  rw [exponential_eq lower upper, wrapInt64_of_inInt64 ⟨by omega, by omega⟩]

/-- The first power whose product does not fit. -/
theorem exists_first_overflow (small : base < 2 ^ 63) {last : Nat}
    (isOver : 2 ^ 63 ≤ base * 2 ^ last) :
    ∃ first ≤ last, 2 ^ 63 ≤ base * 2 ^ first ∧ base * 2 ^ first < 2 ^ 64 := by
  induction last with
  | zero => exact absurd isOver (by simpa using small)
  | succ last ih =>
    by_cases already : 2 ^ 63 ≤ base * 2 ^ last
    · obtain ⟨first, atMost, found⟩ := ih already
      exact ⟨first, Nat.le_succ_of_le atMost, found⟩
    · refine ⟨last + 1, Nat.le_refl _, isOver, ?_⟩
      rw [pow_succ, ← mul_assoc]
      omega

theorem exponential_bounded_iff {last : Int} (positive : 0 < base) (ordered : base ≤ limit)
    (inRange : limit < 2 ^ 63) (lower : 0 ≤ last) (upper : last < 2 ^ 63) :
    BoundedTo (calculateRetryDelay ⟨.exponentialBackoff, base, limit⟩) base limit last ↔
      base * 2 ^ last.toNat < 2 ^ 63 := by
  constructor
  · intro bounded
    by_contra isOver
    obtain ⟨first, atMost, low, high⟩ :=
      exists_first_overflow (by omega : base < 2 ^ 63) (Int.not_lt.mp isOver)
    have inside : (first : Int) ≤ last := by omega
    obtain ⟨⟨above, -⟩, -⟩ := bounded first (Int.natCast_nonneg _) inside
    rw [exponential_eq (Int.natCast_nonneg _) (by omega), Int.toNat_natCast] at above
    have negative := wrapInt64_neg low high
    omega
  · intro fits count nonneg atMost
    have grows : base * 2 ^ count.toNat ≤ base * 2 ^ last.toNat :=
      Int.mul_le_mul_of_nonneg_left (pow_toNat_le atMost) (by omega)
    have atLeast : base ≤ base * 2 ^ count.toNat :=
      le_mul_of_one_le_right (by omega) (one_le_pow₀ (by decide))
    rw [exponential_of_fits positive nonneg (by omega) (by omega)]
    refine ⟨⟨by omega, by omega⟩, fun earlier earlierNonneg before => ?_⟩
    have smaller : base * 2 ^ earlier.toNat ≤ base * 2 ^ count.toNat :=
      Int.mul_le_mul_of_nonneg_left (pow_toNat_le before) (by omega)
    rw [exponential_of_fits positive earlierNonneg (by omega) (by omega)]
    omega

/-! ## Linear delays -/

theorem linear_of_fits (positive : 0 < base) (lower : 0 ≤ count)
    (fits : base * (count + 1) < 2 ^ 63) :
    calculateRetryDelay ⟨.linearBackoff, base, limit⟩ count = min limit (base * (count + 1)) := by
  have nonneg : 0 ≤ base * (count + 1) := by positivity
  simp only [calculateRetryDelay, clamp_eq_min, wrapInt64, Int.mul_bmod_bmod]
  rw [← wrapInt64, wrapInt64_of_inInt64 ⟨by omega, by omega⟩]

/-- A count is less than its power of two. -/
theorem linear_le_exponential (positive : 0 < base) (lower : 0 ≤ count) :
    base * (count + 1) ≤ base * 2 ^ count.toNat := by
  have less : count.toNat + 1 ≤ 2 ^ count.toNat := Nat.lt_two_pow_self
  have cast : ((count.toNat + 1 : Nat) : Int) ≤ ((2 ^ count.toNat : Nat) : Int) :=
    Int.ofNat_le.mpr less
  push_cast at cast
  exact Int.mul_le_mul_of_nonneg_left (by omega) (by omega)

theorem linear_bounded {last : Int} (positive : 0 < base) (ordered : base ≤ limit)
    (fits : base * (last + 1) < 2 ^ 63) :
    BoundedTo (calculateRetryDelay ⟨.linearBackoff, base, limit⟩) base limit last := by
  have monotone : ∀ earlier later : Int, earlier ≤ later →
      base * (earlier + 1) ≤ base * (later + 1) := fun earlier later before =>
    Int.mul_le_mul_of_nonneg_left (by omega) (by omega)
  intro count nonneg atMost
  have grows := monotone count last atMost
  have atLeast := monotone 0 count nonneg
  rw [linear_of_fits positive nonneg (by omega)]
  refine ⟨⟨by omega, by omega⟩, fun earlier earlierNonneg before => ?_⟩
  have smaller := monotone earlier count before
  rw [linear_of_fits positive earlierNonneg (by omega)]
  omega

/-! ## The scheduler's delays -/

/-- Without a wrap the delay doubles up to `2 ^ 62`, and is the limit from there. -/
theorem safeExponentialBackoff_eq (positive : 0 < base) (ordered : base ≤ limit)
    (later : 1 < count) :
    safeExponentialBackoff base limit count =
      if base * 2 ^ (count - 1).toNat ≤ 2 ^ 62 then min limit (base * 2 ^ (count - 1).toNat)
      else limit := by
  have limitPositive : 0 < limit := by omega
  unfold safeExponentialBackoff
  simp only [if_neg (Int.not_le.mpr later), limitPositive, true_and, if_true]
  generalize shiftEq : (count - 1).toNat = shift
  have cast : count - 1 = shift := by omega
  rw [cast]
  by_cases far : 63 ≤ shift
  · have power : (2 : Int) ^ 63 ≤ 2 ^ shift := pow_le_pow_right₀ (by decide) far
    have isOver : ¬ base * 2 ^ shift ≤ 2 ^ 62 := by
      have atLeast : 2 ^ shift ≤ base * 2 ^ shift := le_mul_of_one_le_left (by omega) (by omega)
      omega
    rw [if_pos (Or.inl (by omega)), if_neg isOver]
  · -- Below 63 the power itself fits, and the guard compares with the exact quotient.
    obtain ⟨rest, split⟩ : ∃ rest, 62 = shift + rest := ⟨62 - shift, by omega⟩
    have powerPositive : (0 : Int) < 2 ^ shift := by positivity
    have whole : (2 : Int) ^ 62 = 2 ^ shift * 2 ^ rest := by rw [split, pow_add]
    have restPositive : (0 : Int) < 2 ^ rest := by positivity
    have powerSmall : (2 : Int) ^ shift ≤ 2 ^ 62 :=
      pow_le_pow_right₀ (by decide) (by omega)
    have quotient : (2 ^ 62 : Int).tdiv (shiftLeft 1 shift) = 2 ^ rest := by
      rw [shiftLeft, one_mul, wrapInt64_of_inInt64 ⟨by omega, by omega⟩, whole,
        Int.mul_tdiv_cancel_left _ (by omega)]
    have guard : 2 ^ rest < base ↔ ¬ base * 2 ^ shift ≤ 2 ^ 62 := by
      rw [whole, mul_comm ((2 : Int) ^ shift), not_le, mul_lt_mul_iff_left₀ powerPositive]
    rw [quotient]
    by_cases isOver : 2 ^ rest < base
    · rw [if_pos (Or.inr isOver), if_neg (guard.mp isOver)]
    · have fits : base * 2 ^ shift ≤ 2 ^ 62 := not_not.mp fun not => isOver (guard.mpr not)
      have product : 0 < base * 2 ^ shift := by positivity
      have shifted : shiftLeft base shift = base * 2 ^ shift :=
        wrapInt64_of_inInt64 ⟨by omega, by omega⟩
      rw [if_neg (by omega), shifted, if_neg (by omega), if_pos fits]
      split <;> omega

/-- The scheduler's delays are bounded for every count. -/
theorem safeExponentialBackoff_bounded (positive : 0 < base) (ordered : base ≤ limit)
    (last : Int) : BoundedTo (safeExponentialBackoff base limit) base limit last := by
  have early : ∀ attempt, attempt ≤ 1 → safeExponentialBackoff base limit attempt = base :=
    fun attempt first => if_pos first
  have atLeast : ∀ attempt : Int, base ≤ base * 2 ^ (attempt - 1).toNat := fun attempt =>
    le_mul_of_one_le_right (by omega) (one_le_pow₀ (by decide))
  intro count nonneg atMost
  by_cases first : count ≤ 1
  · rw [early count first]
    refine ⟨⟨Int.le_refl _, ordered⟩, fun earlier _ before => ?_⟩
    rw [early earlier (by omega)]
  · have low := atLeast count
    have bounds : base ≤ safeExponentialBackoff base limit count ∧
        safeExponentialBackoff base limit count ≤ limit := by
      rw [safeExponentialBackoff_eq positive ordered (by omega)]
      split <;> omega
    refine ⟨bounds, fun earlier _ before => ?_⟩
    by_cases initial : earlier ≤ 1
    · rw [early earlier initial]
      exact bounds.1
    · have smaller : base * 2 ^ (earlier - 1).toNat ≤ base * 2 ^ (count - 1).toNat :=
        Int.mul_le_mul_of_nonneg_left (pow_toNat_le (by omega)) (by omega)
      rw [safeExponentialBackoff_eq positive ordered (by omega),
        safeExponentialBackoff_eq positive ordered (by omega)]
      split <;> split <;> omega

/-! ## All delays -/

/-- All three delays up to a retry are within their bounds and do not shrink exactly when the
product of the initial delay and the power of two for that retry fits into an int64. -/
theorem retry_delays_bounded_iff (base limit last : Int) (positive : 0 < base)
    (ordered : base ≤ limit) (inRange : limit < 2 ^ 63) (lower : 0 ≤ last)
    (upper : last < 2 ^ 63) :
    (BoundedTo (calculateRetryDelay ⟨.exponentialBackoff, base, limit⟩) base limit last ∧
      BoundedTo (calculateRetryDelay ⟨.linearBackoff, base, limit⟩) base limit last ∧
      BoundedTo (safeExponentialBackoff base limit) base limit last) ↔
      base * 2 ^ last.toNat < 2 ^ 63 := by
  rw [exponential_bounded_iff positive ordered inRange lower upper]
  constructor
  · intro bounded
    exact bounded.1
  · intro fits
    have linear := linear_le_exponential positive lower
    exact ⟨fits, linear_bounded positive ordered (by omega),
      safeExponentialBackoff_bounded positive ordered last⟩

/-- A delay of a second with a limit of an hour stays in its bounds for ten retries. -/
theorem retry_delays_bounded_ten :
    BoundedTo (calculateRetryDelay ⟨.exponentialBackoff, 1000000000, 3600000000000⟩)
      1000000000 3600000000000 10 :=
  ((retry_delays_bounded_iff 1000000000 3600000000000 10 (by decide) (by decide) (by decide)
    (by decide) (by decide)).mpr (by decide)).1

/-- From a second, the delay after 34 failed retries is negative, and from 64 on it is zero. -/
theorem exponential_delay_collapses :
    calculateRetryDelay ⟨.exponentialBackoff, 1000000000, 3600000000000⟩ 34 < 0 ∧
      calculateRetryDelay ⟨.exponentialBackoff, 1000000000, 3600000000000⟩ 64 = 0 := by
  decide +kernel

end Plumego.PubSub.Retry
