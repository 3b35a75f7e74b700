/-
Module: Plumego.Go.Order
Purpose: The order of bytes, and `sort.Slice` for results that may depend on the order it
  leaves equal elements in.
Trusted boundary: `sort.Slice` rearranges its slice so that no element is less than one before
  it; which of these arrangements it chooses is left open.
Main exports: SliceSort, insertionSlice
-/
import Mathlib.Data.List.Lex
import Mathlib.Data.List.Sort
import Plumego.Go.Strings

namespace Plumego.Go

/-- Bytes are ordered by their values. -/
instance byteLinearOrder : LinearOrder UInt8 where
  le := (· ≤ ·)
  lt := (· < ·)
  le_refl := UInt8.le_refl
  le_trans := fun _ _ _ => UInt8.le_trans
  le_antisymm := fun _ _ => UInt8.le_antisymm
  le_total := UInt8.le_total
  lt_iff_le_not_ge := fun first second => by
    rw [UInt8.not_le]
    exact ⟨fun less => ⟨UInt8.le_of_lt less, less⟩, fun both => both.2⟩
  toDecidableLE := inferInstance
  toDecidableEq := inferInstance
  toDecidableLT := inferInstance


/-! ## Sorting -/

section Sorting

variable {α : Type}

/-- A choice of the arrangement that `sort.Slice` leaves. -/
structure SliceSort (less : α → α → Bool) where
  sort : List α → List α
  perm : ∀ items, (sort items).Perm items
  sorted : ∀ items, (sort items).Pairwise fun earlier later => less later earlier = false

/-- The comparisons that `sort.Slice` accepts: strict and transitive, also
through elements that are equal. -/
structure WeakOrder (less : α → α → Bool) : Prop where
  asymmetric : ∀ first second, less first second = true → less second first = false
  transitive : ∀ first second third, less second first = false → less third second = false →
    less third first = false

/-- The arrangement that insertion sort leaves, which keeps equal elements in
order. -/
def insertionSlice {less : α → α → Bool} (order : WeakOrder less) : SliceSort less where
  sort items := items.insertionSort fun earlier later => less later earlier = false
  perm items := List.perm_insertionSort _ items
  sorted items := by
    have total : Std.Total fun earlier later : α => less later earlier = false := by
      refine ⟨fun first second => ?_⟩
      cases compared : less second first with
      | false => exact Or.inl rfl
      | true => exact Or.inr (order.asymmetric second first compared)
    have transitive : IsTrans α fun earlier later => less later earlier = false :=
      ⟨order.transitive⟩
    exact List.pairwise_insertionSort _ items

end Sorting

end Plumego.Go
