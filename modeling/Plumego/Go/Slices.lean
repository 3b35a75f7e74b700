/-
Module: Plumego.Go.Slices
Purpose: Slices: which sizes `make` accepts, and `sort.Search`.
Trusted boundary: `make` panics for a size over the runtime's limit on 64-bit Linux.
Main exports: canMake, search, search_spec
-/
import Mathlib.Algebra.Ring.Int.Defs

namespace Plumego.Go

/-! ## Allocation -/

/-- The limit of one allocation, in bytes. -/
def maxAlloc : Int := 2 ^ 48

/-- `make` of a slice returns; it panics for any other length or capacity. -/
def canMake (elementSize length : Int) : Bool :=
  0 ≤ length && elementSize * length ≤ maxAlloc

/-! ## Binary search -/

section Search

variable {m : Type → Type} [Monad m]

/-- The loop of `sort.Search`. Each round makes the interval shorter, so its
length is fuel enough. -/
def searchBetween (found : Nat → m Bool) : Nat → Nat → Nat → m Nat
  | 0, low, _ => pure low
  | fuel + 1, low, high =>
    if low < high then do
      let middle := (low + high) / 2
      if ← found middle then searchBetween found fuel low middle
      else searchBetween found fuel (middle + 1) high
    else pure low

/-- `sort.Search(count, found)`; the predicate may fail. -/
def search (count : Nat) (found : Nat → m Bool) : m Nat := searchBetween found count 0 count

/-- The index is the first one with a property that, once it holds, holds for
all later ones. -/
structure FirstIndex (count : Nat) (answer : Nat → Bool) (index : Nat) : Prop where
  bound : index ≤ count
  before : ∀ earlier < index, answer earlier = false
  after : ∀ later, index ≤ later → later < count → answer later = true

variable [LawfulMonad m]

theorem searchBetween_spec {count : Nat} {found : Nat → m Bool} {answer : Nat → Bool}
    (total : ∀ index < count, found index = pure (answer index))
    (upward : ∀ earlier later, earlier ≤ later → later < count → answer earlier = true →
      answer later = true)
    {fuel low high : Nat} (ordered : low ≤ high) (inside : high ≤ count)
    (enough : high - low ≤ fuel) (before : ∀ earlier < low, answer earlier = false)
    (after : ∀ later, high ≤ later → later < count → answer later = true) :
    ∃ index, searchBetween found fuel low high = pure index ∧
      FirstIndex count answer index := by
  induction fuel generalizing low high with
  | zero =>
    have same : low = high := by omega
    subst same
    exact ⟨low, rfl, inside, before, after⟩
  | succ fuel ih =>
    unfold searchBetween
    by_cases wide : low < high
    · have middleLt : (low + high) / 2 < high := by omega
      have middleGe : low ≤ (low + high) / 2 := by omega
      rw [if_pos wide]
      simp only [total _ (Nat.lt_of_lt_of_le middleLt inside), pure_bind]
      cases hit : answer ((low + high) / 2) with
      | true =>
        apply ih middleGe (by omega) (by omega) before
        intro later atLeast below
        exact upward _ later atLeast below hit
      | false =>
        apply ih (by omega) inside (by omega) _ after
        intro earlier less
        by_contra holds
        have reached := upward earlier ((low + high) / 2) (by omega) (by omega)
          (by simpa using holds)
        rw [hit] at reached
        cases reached
    · have same : low = high := by omega
      subst same
      rw [if_neg wide]
      exact ⟨low, rfl, inside, before, after⟩

/-- `sort.Search` finds the first index of a property that holds from some
index on. -/
theorem search_spec {count : Nat} {found : Nat → m Bool} {answer : Nat → Bool}
    (total : ∀ index < count, found index = pure (answer index))
    (upward : ∀ earlier later, earlier ≤ later → later < count → answer earlier = true →
      answer later = true) :
    ∃ index, search count found = pure index ∧ FirstIndex count answer index := by
  apply searchBetween_spec total upward (Nat.zero_le count) (Nat.le_refl count) (by omega)
  · intro earlier less
    omega
  · intro later atLeast below
    omega

end Search

end Plumego.Go
