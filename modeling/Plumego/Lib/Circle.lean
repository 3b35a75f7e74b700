/-
Module: Plumego.Lib.Circle
Purpose: Circular buffers as queues: the live slots from the head on, and what a write at the tail or
  over the oldest slot does to them. Points on a circle: the first point met from a start on,
  clockwise, in any linear order whose ends are joined.
Trusted boundary: none
Main exports: Ring.live_push, Ring.live_rotate, FirstFrom, FirstFrom.unique, firstFrom_of_index
-/
import Mathlib.Data.List.Basic
import Mathlib.Data.List.Induction
import Mathlib.Data.List.Sort
import Mathlib.Data.Nat.ModEq
import Mathlib.Data.Set.Basic

namespace Plumego.Lib.Ring

variable {α : Type} (default : α)

/-- The slots of a queue held in a ring of `capacity` slots, oldest first. -/
def live (ring : List α) (capacity head size : Nat) : List α :=
  (List.range size).map fun offset => ring.getD ((head + offset) % capacity) default

theorem length_live (ring : List α) (capacity head size : Nat) :
    (live default ring capacity head size).length = size := by
  simp [live]

/-- Different offsets below the capacity address different slots. -/
theorem slot_ne {capacity head first second : Nat} (firstBound : first < capacity)
    (secondBound : second < capacity) (different : first ≠ second) :
    (head + first) % capacity ≠ (head + second) % capacity := by
  intro same
  have congruent : first ≡ second [MOD capacity] :=
    Nat.ModEq.add_left_cancel' head same
  apply different
  rw [Nat.ModEq, Nat.mod_eq_of_lt firstBound, Nat.mod_eq_of_lt secondBound] at congruent
  exact congruent

theorem getD_set_eq {ring : List α} {index : Nat} (value : α)
    (bound : index < ring.length) : (ring.set index value).getD index default = value := by
  simp [List.getD, bound]

theorem getD_set_ne {ring : List α} {index other : Nat} (value : α)
    (different : index ≠ other) :
    (ring.set index value).getD other default = ring.getD other default := by
  simp [List.getD, List.getElem?_set_ne different]

/-- Writing the first free slot appends to the queue. -/
theorem live_push {ring : List α} {capacity head size : Nat} (value : α)
    (length : ring.length = capacity) (room : size < capacity) :
    live default (ring.set ((head + size) % capacity) value) capacity head (size + 1) =
      live default ring capacity head size ++ [value] := by
  have slot : (head + size) % capacity < ring.length := by
    rw [length]
    exact Nat.mod_lt _ (by omega)
  unfold live
  rw [List.range_succ, List.map_append, List.map_singleton,
    getD_set_eq default value slot]
  congr 1
  apply List.map_congr_left
  intro offset member
  have bound := List.mem_range.mp member
  exact getD_set_ne default value (slot_ne (by omega) (by omega) (by omega))

/-- In a full ring the head slot is the oldest element. -/
theorem live_full {ring : List α} {capacity head : Nat} (positive : 0 < capacity)
    (headBound : head < capacity) :
    live default ring capacity head capacity =
      ring.getD head default :: (live default ring capacity head capacity).tail := by
  obtain ⟨rest, rfl⟩ : ∃ rest, capacity = rest + 1 := ⟨capacity - 1, by omega⟩
  unfold live
  rw [List.range_succ_eq_map, List.map_cons, List.tail_cons, Nat.add_zero,
    Nat.mod_eq_of_lt headBound]

/-- Overwriting the head slot of a full ring and advancing the head drops the
oldest element and appends the new one. -/
theorem live_rotate {ring : List α} {capacity head : Nat} (value : α)
    (length : ring.length = capacity) (headBound : head < capacity) :
    live default (ring.set head value) capacity ((head + 1) % capacity) capacity =
      (live default ring capacity head capacity).tail ++ [value] := by
  obtain ⟨rest, rfl⟩ : ∃ rest, capacity = rest + 1 := ⟨capacity - 1, by omega⟩
  unfold live
  rw [List.range_succ, List.map_append, List.map_singleton]
  have final : ((head + 1) % (rest + 1) + rest) % (rest + 1) = head := by
    rw [Nat.mod_add_mod, show head + 1 + rest = head + (rest + 1) by omega,
      Nat.add_mod_right, Nat.mod_eq_of_lt headBound]
  rw [final, getD_set_eq default value (by omega)]
  congr 1
  rw [← List.range_succ, List.range_succ_eq_map, List.map_cons, List.tail_cons,
    List.map_map]
  apply List.map_congr_left
  intro offset member
  have bound := List.mem_range.mp member
  have slot : ((head + 1) % (rest + 1) + offset) % (rest + 1) =
      (head + (offset + 1)) % (rest + 1) := by
    rw [Nat.mod_add_mod]
    congr 1
    omega
  have apart : head ≠ (head + (offset + 1)) % (rest + 1) := by
    have different : (head + 0) % (rest + 1) ≠ (head + (offset + 1)) % (rest + 1) :=
      slot_ne (by omega) (by omega) (by omega)
    rwa [Nat.add_zero, Nat.mod_eq_of_lt headBound] at different
  simp only [Function.comp, slot]
  exact getD_set_ne default value apart

end Plumego.Lib.Ring

/-! ## Points on a circle -/

namespace Plumego.Lib

variable {α : Type} [LinearOrder α]

/-- Going clockwise from the start, the first point is met no later than the
second. -/
def Nearer (start first second : α) : Prop :=
  (start ≤ first ∧ second < start) ∨ ((start ≤ first ↔ start ≤ second) ∧ first ≤ second)

/-- The point of the set that is met first, going clockwise from the start. -/
structure FirstFrom (points : Set α) (start point : α) : Prop where
  mem : point ∈ points
  nearest : ∀ other ∈ points, Nearer start point other

theorem Nearer.antisymm {start first second : α} (one : Nearer start first second)
    (two : Nearer start second first) : first = second := by
  rcases one with ⟨firstAfter, secondBefore⟩ | ⟨sameSide, atMost⟩
  · rcases two with ⟨secondAfter, -⟩ | ⟨sameSide, -⟩
    · exact absurd secondBefore (not_lt.mpr secondAfter)
    · exact absurd secondBefore (not_lt.mpr (sameSide.mpr firstAfter))
  · rcases two with ⟨secondAfter, firstBefore⟩ | ⟨-, atLeast⟩
    · exact absurd firstBefore (not_lt.mpr (sameSide.mpr secondAfter))
    · exact le_antisymm atMost atLeast

/-- There is at most one first point. -/
theorem FirstFrom.unique {points : Set α} {start one two : α}
    (first : FirstFrom points start one) (second : FirstFrom points start two) :
    one = two :=
  (first.nearest two second.mem).antisymm (second.nearest one first.mem)

/-- A first point stays first when other points go. -/
theorem FirstFrom.restrict {points fewer : Set α} {start point : α}
    (first : FirstFrom points start point) (subset : fewer ⊆ points)
    (kept : point ∈ fewer) : FirstFrom fewer start point :=
  ⟨kept, fun other member => first.nearest other (subset member)⟩

/-- In an increasing list, the first element from the start on is the first
point; if there is none, the head of the list is. -/
theorem firstFrom_of_index {points : List α} (increasing : points.Pairwise (· < ·))
    {start point : α} {index : Nat}
    (before : ∀ earlier < index, ∀ other, points[earlier]? = some other → other < start)
    (found : points[index]? = some point ∧ start ≤ point ∨
      points.length ≤ index ∧ points[0]? = some point) :
    FirstFrom {other | other ∈ points} start point := by
  rcases found with ⟨atIndex, reached⟩ | ⟨beyond, atHead⟩
  · refine ⟨List.mem_of_getElem? atIndex, ?_⟩
    intro other member
    obtain ⟨position, positionEq⟩ := List.getElem?_of_mem member
    by_cases early : position < index
    · exact Or.inl ⟨reached, before position early other positionEq⟩
    · have atMost : point ≤ other := by
        rcases Nat.lt_or_eq_of_le (Nat.not_lt.mp early) with later | same
        · obtain ⟨indexLt, indexGet⟩ := List.getElem?_eq_some_iff.mp atIndex
          obtain ⟨positionLt, positionGet⟩ := List.getElem?_eq_some_iff.mp positionEq
          rw [← indexGet, ← positionGet]
          exact (List.pairwise_iff_getElem.mp increasing index position indexLt positionLt
            later).le
        · rw [← same, atIndex, Option.some.injEq] at positionEq
          exact positionEq.le
      exact Or.inr ⟨⟨fun _ => reached.trans atMost, fun _ => reached⟩, atMost⟩
  · refine ⟨List.mem_of_getElem? atHead, ?_⟩
    intro other member
    have allBefore : ∀ other ∈ points, other < start := by
      intro other member
      obtain ⟨position, positionEq⟩ := List.getElem?_of_mem member
      obtain ⟨positionLt, -⟩ := List.getElem?_eq_some_iff.mp positionEq
      exact before position (by omega) other positionEq
    have headBefore := allBefore point (List.mem_of_getElem? atHead)
    have otherBefore := allBefore other member
    refine Or.inr ⟨⟨fun reached => absurd headBefore (not_lt.mpr reached),
      fun reached => absurd otherBefore (not_lt.mpr reached)⟩, ?_⟩
    obtain ⟨position, positionEq⟩ := List.getElem?_of_mem member
    rcases Nat.eq_zero_or_pos position with rfl | later
    · rw [atHead, Option.some.injEq] at positionEq
      exact positionEq.le
    · obtain ⟨headLt, headGet⟩ := List.getElem?_eq_some_iff.mp atHead
      obtain ⟨positionLt, positionGet⟩ := List.getElem?_eq_some_iff.mp positionEq
      rw [← headGet, ← positionGet]
      exact (List.pairwise_iff_getElem.mp increasing 0 position headLt positionLt later).le

end Plumego.Lib
