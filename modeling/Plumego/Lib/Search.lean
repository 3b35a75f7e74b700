/-
Module: Plumego.Lib.Search
Purpose: A search along the integers by jumps, and when it stops at the first goal.
Trusted boundary: none
Main exports: search, search_least
-/
import Mathlib.Order.Basic

namespace Plumego.Lib

/-- Follow the jumps until there is none, for a number of rounds. -/
def search (jump : Int → Option Int) : Nat → Int → Option Int
  | 0, _ => none
  | rounds + 1, place =>
    match jump place with
    | none => some place
    | some next => search jump rounds next

/-- A search that stops at goals only, never jumps over one and comes closer to one with each jump
ends at the first goal. -/
theorem search_least {jump : Int → Option Int} {goal : Int → Prop} {target : Int}
    (distance : Int → Nat) (isGoal : goal target) (stops : ∀ place, jump place = none → goal place)
    (skips : ∀ place next, jump place = some next → place < next ∧
      ∀ between, place ≤ between → between < next → ¬ goal between)
    (closer : ∀ place next, jump place = some next → next ≤ target → distance next < distance place)
    {place : Int} (notBehind : place ≤ target) {rounds : Nat} (enough : distance place < rounds) :
    ∃ first, search jump rounds place = some first ∧ goal first ∧ place ≤ first ∧
      ∀ other, place ≤ other → goal other → first ≤ other := by
  induction rounds generalizing place with
  | zero => exact absurd enough (Nat.not_lt_zero _)
  | succ rounds ih =>
    cases jumpEq : jump place with
    | none =>
      refine ⟨place, ?_, stops place jumpEq, Int.le_refl place, fun other notBefore _ => notBefore⟩
      simp only [search, jumpEq]
    | some next =>
      obtain ⟨forward, nothing⟩ := skips place next jumpEq
      have ahead : ∀ other, place ≤ other → goal other → next ≤ other := by
        intro other notBefore isOther
        exact Int.not_lt.mp fun before => nothing other notBefore before isOther
      have near := ahead target notBehind isGoal
      obtain ⟨first, found, isFirst, reached, least⟩ :=
        ih near (by have less := closer place next jumpEq near; omega)
      refine ⟨first, ?_, isFirst, by omega, ?_⟩
      · simp only [search, jumpEq]
        exact found
      · intro other notBefore isOther
        exact least other (ahead other notBefore isOther) isOther

end Plumego.Lib
