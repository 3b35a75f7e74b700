/-
Module: Plumego.Lib.TokenBucket
Purpose: The amortised bound of a token bucket: what was granted since an instant and what is left in
  the bucket together never exceed the capacity and what came in since then.
Trusted boundary: none
Main exports: grantedSince, grantedWithin, Metered,
  metered_nil, Metered.wait, Metered.grant
-/
import Mathlib.Algebra.Order.Field.Basic
import Mathlib.Data.Int.Order.Basic
import Mathlib.Tactic.Linarith
import Mathlib.Tactic.Ring

namespace Plumego.Lib

variable {R : Type} [Field R] [LinearOrder R] [IsStrictOrderedRing R]

/-- How many of the grants were made from an instant on. -/
def grantedSince (grants : List R) (start : R) : Nat :=
  grants.countP fun instant => decide (start ≤ instant)

/-- How many of the grants were made in an interval. -/
def grantedWithin (grants : List R) (start length : R) : Nat :=
  grants.countP fun instant => decide (start ≤ instant ∧ instant ≤ start + length)

/-- A bucket with a level at an instant, after some grants. -/
structure Metered (rate capacity : R) (grants : List R) (level now : R) : Prop where
  past : ∀ instant ∈ grants, instant ≤ now
  bounded : level ≤ capacity
  spent : ∀ start ≤ now, grantedSince grants start + level ≤ capacity + rate * (now - start)
  within : ∀ start length, 0 ≤ length →
    (grantedWithin grants start length : R) ≤ capacity + rate * length

variable {rate capacity level now : R} {grants : List R}

/-- A bucket from which nothing was granted. -/
theorem metered_nil (nonnegative : 0 ≤ rate) (room : 0 ≤ capacity) (bounded : level ≤ capacity) :
    Metered rate capacity [] level now where
  past := nofun
  bounded := bounded
  spent := fun start before => by
    have refilled := mul_nonneg nonnegative (sub_nonneg.mpr before)
    simp only [grantedSince, List.countP_nil, Nat.cast_zero]
    linarith
  within := fun start length long => by
    have refilled := mul_nonneg nonnegative long
    simp only [grantedWithin, List.countP_nil, Nat.cast_zero]
    linarith

/-- While time passes, the bucket fills at most at its rate. -/
theorem Metered.wait (metered : Metered rate capacity grants level now)
    (nonnegative : 0 ≤ rate) {later refilled : R} (after : now ≤ later)
    (bounded : refilled ≤ capacity) (refill : refilled ≤ level + rate * (later - now)) :
    Metered rate capacity grants refilled later where
  past := fun instant member => (metered.past instant member).trans after
  bounded := bounded
  spent := fun start before => by
    rcases le_or_gt start now with old | recent
    · have spent := metered.spent start old
      have split : rate * (later - start) = rate * (now - start) + rate * (later - now) := by ring
      linarith
    · have none : grantedSince grants start = 0 := by
        rw [grantedSince, List.countP_eq_zero]
        intro instant member
        simpa using (metered.past instant member).trans_lt recent
      have filled := mul_nonneg nonnegative (sub_nonneg.mpr before)
      rw [none, Nat.cast_zero]
      linarith
  within := metered.within

/-- A grant takes one from a level of at least one. -/
theorem Metered.grant (metered : Metered rate capacity grants level now)
    (nonnegative : 0 ≤ rate) (enough : 1 ≤ level) :
    Metered rate capacity (grants ++ [now]) (level - 1) now := by
  have since : ∀ start ≤ now,
      grantedSince (grants ++ [now]) start = grantedSince grants start + 1 := by
    intro start before
    simp [grantedSince, List.countP_append, before]
  have spent : ∀ start ≤ now,
      grantedSince (grants ++ [now]) start + (level - 1) ≤ capacity + rate * (now - start) := by
    intro start before
    have spent := metered.spent start before
    rw [since start before, Nat.cast_add, Nat.cast_one]
    linarith
  refine ⟨fun instant member => ?_, ?_, spent, fun start length long => ?_⟩
  · rcases List.mem_append.mp member with old | new
    · exact metered.past instant old
    · exact (List.mem_singleton.mp new).le
  · linarith [metered.bounded]
  · by_cases inside : start ≤ now ∧ now ≤ start + length
    · -- every grant of the interval is one since its start
      have fewer : grantedWithin (grants ++ [now]) start length ≤
          grantedSince (grants ++ [now]) start :=
        List.countP_mono_left fun instant _ both => by simp_all
      have fewer : (grantedWithin (grants ++ [now]) start length : R) ≤
          grantedSince (grants ++ [now]) start := Nat.cast_le.mpr fewer
      have spent := spent start inside.1
      have filled : rate * (now - start) ≤ rate * length :=
        mul_le_mul_of_nonneg_left (by linarith [inside.2]) nonnegative
      linarith
    · have same : grantedWithin (grants ++ [now]) start length =
          grantedWithin grants start length := by
        simp [grantedWithin, List.countP_append, inside]
      rw [same]
      exact metered.within start length long

end Plumego.Lib
