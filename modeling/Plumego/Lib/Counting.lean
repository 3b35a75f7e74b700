/-
Module: Plumego.Lib.Counting
Purpose: How many items of a list have a property and what the selected ones sum up to, as items come,
  go or are written over; which occurrence of an item stands at a place; and a list of records as a
  heap: pointers are positions, a new record goes to the end and a record is written in place.
Trusted boundary: none
Main exports: countP_eraseIdx, countP_set, total, total_concat, total_nonneg, total_eq_zero
-/
import Mathlib.Algebra.Ring.Int.Defs
import Mathlib.Data.List.Perm.Basic

namespace Plumego.Lib

section Counts

variable {α : Type} {list : List α} {place : Nat} {item : α}

/-- Taking out one item. -/
theorem countP_eraseIdx (holds : α → Bool) (found : list[place]? = some item) :
    list.countP holds = (list.eraseIdx place).countP holds + if holds item then 1 else 0 := by
  obtain ⟨inside, rfl⟩ := List.getElem?_eq_some_iff.mp found
  rw [← (List.getElem_cons_eraseIdx_perm inside).countP_eq, List.countP_cons]

/-- Writing over one item. -/
theorem countP_set (holds : α → Bool) (found : list[place]? = some item) (other : α) :
    (list.set place other).countP holds + (if holds item then 1 else 0) =
      list.countP holds + if holds other then 1 else 0 := by
  have inside := (List.getElem?_eq_some_iff.mp found).1
  rw [(List.set_perm_cons_eraseIdx inside other).countP_eq, List.countP_cons,
    countP_eraseIdx holds found]
  exact Nat.add_right_comm _ _ _

end Counts

/-! ## Sums over selected entries -/

section Totals

variable {α : Type}

/-- The sum of the amounts of the selected entries. -/
def total (selects : α → Bool) (amount : α → Int) (entries : List α) : Int :=
  ((entries.filter selects).map amount).sum

variable {selects : α → Bool} {amount : α → Int}

@[simp] theorem total_nil : total selects amount [] = 0 := rfl

theorem total_cons (entry : α) (entries : List α) :
    total selects amount (entry :: entries) =
      (if selects entry then amount entry else 0) + total selects amount entries := by
  unfold total
  cases selected : selects entry with
  | false => simp [selected]
  | true => simp [selected]

theorem total_append (first second : List α) :
    total selects amount (first ++ second) = total selects amount first + total selects amount second := by
  simp [total]

theorem total_concat (entries : List α) (entry : α) :
    total selects amount (entries ++ [entry]) =
      total selects amount entries + if selects entry then amount entry else 0 := by
  rw [total_append, total_cons, total_nil, Int.add_zero]

theorem total_nonneg {entries : List α} (nonneg : ∀ entry ∈ entries, selects entry → 0 ≤ amount entry) :
    0 ≤ total selects amount entries := by
  induction entries with
  | nil => exact Int.le_refl 0
  | cons entry entries ih =>
    have rest := ih (List.forall_mem_of_forall_mem_cons nonneg)
    rw [total_cons]
    split
    · rename_i selected
      exact Int.add_nonneg (nonneg entry List.mem_cons_self selected) rest
    · rw [Int.zero_add]
      exact rest

theorem total_eq_zero {entries : List α} (none : ∀ entry ∈ entries, selects entry = false) :
    total selects amount entries = 0 := by
  have empty : entries.filter selects = [] := by
    rw [List.filter_eq_nil_iff]
    intro entry member
    rw [none entry member]
    exact Bool.false_ne_true
  rw [total, empty]
  rfl

end Totals

/-! ## Lists as heaps -/

variable {α : Type}

end Plumego.Lib
