/-
Module: Plumego.Lib.IndexedHeap
Purpose: A slice of distinct items that a heap library orders by swapping, where every item knows
  its place in the slice.
Trusted boundary: the library is a parameter. It swaps items within the slice only, and leaves a
  heap where it found one.
Main exports: Indexed, Library, Indexed.push, Indexed.remove, Wired, Wired.push, Wired.remove,
  scanning
-/
import Mathlib.Data.List.Perm.Basic
import Mathlib.Logic.Function.Basic

namespace Plumego.Lib

variable {α : Type}

/-! ## Exchanging items -/

/-- A slice with two items exchanged. -/
def exchange (items : List α) (places : Nat × Nat) : List α :=
  match items[places.1]?, items[places.2]? with
  | some first, some second => (items.set places.1 second).set places.2 first
  | _, _ => items

/-- A slice after a number of exchanges. -/
def exchanges (items : List α) (swaps : List (Nat × Nat)) : List α := swaps.foldl exchange items

section Exchange

variable {items : List α} {one other place : Nat} {first second : α}

theorem exchange_of_some (atOne : items[one]? = some first) (atOther : items[other]? = some second) :
    exchange items (one, other) = (items.set one second).set other first := by
  simp only [exchange, atOne, atOther]

theorem exchange_perm (items : List α) (places : Nat × Nat) : (exchange items places).Perm items := by
  unfold exchange
  split
  · rename_i first second atFirst atSecond
    obtain ⟨firstLess, rfl⟩ := List.getElem?_eq_some_iff.mp atFirst
    obtain ⟨secondLess, rfl⟩ := List.getElem?_eq_some_iff.mp atSecond
    exact List.set_set_perm firstLess secondLess
  · exact List.Perm.refl _

theorem getElem?_exchange_of_ne (notOne : place ≠ one) (notOther : place ≠ other) :
    (exchange items (one, other))[place]? = items[place]? := by
  unfold exchange
  split
  · rw [List.getElem?_set_ne (Ne.symm notOther), List.getElem?_set_ne (Ne.symm notOne)]
  · rfl

theorem getElem?_exchange_right (atOne : items[one]? = some first)
    (inside : other < items.length) : (exchange items (one, other))[other]? = some first := by
  rw [exchange_of_some atOne (List.getElem?_eq_getElem inside), List.getElem?_set_self]
  rwa [List.length_set]

theorem getElem?_exchange_left (atOther : items[other]? = some second)
    (inside : one < items.length) (different : one ≠ other) :
    (exchange items (one, other))[one]? = some second := by
  rw [exchange_of_some (List.getElem?_eq_getElem inside) atOther,
    List.getElem?_set_ne different.symm, List.getElem?_set_self inside]

theorem exchanges_perm (items : List α) (swaps : List (Nat × Nat)) :
    (exchanges items swaps).Perm items := by
  induction swaps generalizing items with
  | nil => exact List.Perm.refl _
  | cons swap swaps ih =>
    exact (ih _).trans (exchange_perm items swap)

/-- Exchanges below a place leave it alone. -/
theorem getElem?_exchanges {swaps : List (Nat × Nat)}
    (below : ∀ swap ∈ swaps, swap.1 < place ∧ swap.2 < place) :
    (exchanges items swaps)[place]? = items[place]? := by
  induction swaps generalizing items with
  | nil => rfl
  | cons swap swaps ih =>
    obtain ⟨firstLess, secondLess⟩ := below swap List.mem_cons_self
    refine (ih (List.forall_mem_of_forall_mem_cons below)).trans ?_
    exact getElem?_exchange_of_ne (Nat.ne_of_gt firstLess) (Nat.ne_of_gt secondLess)

end Exchange

/-! ## The library -/

/-- A heap library for an order: which swaps it makes after an item was added at the end, and which
after an item was exchanged with the last one to be removed. -/
structure Library (less : α → α → Bool) where
  Heap : List α → Prop
  pushSwaps : List α → List (Nat × Nat)
  removeSwaps : List α → Nat → List (Nat × Nat)
  push_within : ∀ items, ∀ swap ∈ pushSwaps items,
    swap.1 < items.length ∧ swap.2 < items.length
  remove_within : ∀ items place, ∀ swap ∈ removeSwaps items place,
    swap.1 + 1 < items.length ∧ swap.2 + 1 < items.length
  heap_nil : Heap []
  heap_root : ∀ first rest, Heap (first :: rest) → ∀ item ∈ rest, less item first = false
  heap_push : ∀ items item, Heap items →
    Heap (exchanges (items ++ [item]) (pushSwaps (items ++ [item])))
  heap_dropLast : ∀ items, Heap items → Heap items.dropLast
  heap_remove : ∀ items place, Heap items → place + 1 < items.length →
    let moved := exchange items (place, items.length - 1)
    Heap (exchanges moved (removeSwaps moved place)).dropLast

/-- A slice, and the place that every item has written down. -/
structure Indexed (α : Type) where
  items : List α
  index : α → Int

namespace Indexed

variable [DecidableEq α] {less : α → α → Bool}

/-- No items. -/
def empty : Indexed α := ⟨[], fun _ => 0⟩

/-- `Swap` of two places, no result outside the slice. -/
def swap (heap : Indexed α) (places : Nat × Nat) : Option (Indexed α) :=
  match heap.items[places.1]?, heap.items[places.2]? with
  | some first, some second => some ⟨exchange heap.items places,
      Function.update (Function.update heap.index second places.1) first places.2⟩
  | _, _ => none

/-- A number of swaps. -/
def swaps (heap : Indexed α) : List (Nat × Nat) → Option (Indexed α)
  | [] => some heap
  | first :: rest => (heap.swap first).bind fun next => next.swaps rest

/-- `Push`: the item goes to the end. -/
def append (heap : Indexed α) (item : α) : Indexed α :=
  ⟨heap.items ++ [item], Function.update heap.index item heap.items.length⟩

/-- `Pop`: the last item. -/
def removeLast (heap : Indexed α) : Option (Indexed α × α) :=
  heap.items.getLast?.map fun last =>
    (⟨heap.items.dropLast, Function.update heap.index last (-1)⟩, last)

/-- `heap.Push`. -/
def push (library : Library less) (heap : Indexed α) (item : α) : Option (Indexed α) :=
  (heap.append item).swaps (library.pushSwaps (heap.items ++ [item]))

/-- `heap.Remove`; `heap.Pop` removes the first place. -/
def remove (library : Library less) (heap : Indexed α) (place : Nat) :
    Option (Indexed α × α) :=
  if place + 1 = heap.items.length then heap.removeLast
  else
    (heap.swap (place, heap.items.length - 1)).bind fun moved =>
      (moved.swaps (library.removeSwaps moved.items place)).bind removeLast

/-- Distinct items, which know their places. -/
structure Wired (heap : Indexed α) : Prop where
  nodup : heap.items.Nodup
  aligned : ∀ (place : Nat) item, heap.items[place]? = some item → heap.index item = place

omit [DecidableEq α] in
theorem wired_empty : Wired (empty : Indexed α) := ⟨List.nodup_nil, by simp [empty]⟩

variable {heap : Indexed α}

/-- A swap sets the places of the two items and of no others. -/
theorem Wired.swap (wired : Wired heap) {one other : Nat} (oneLess : one < heap.items.length)
    (otherLess : other < heap.items.length) :
    ∃ next, heap.swap (one, other) = some next ∧
      next.items = exchange heap.items (one, other) ∧ Wired next := by
  have atOne := List.getElem?_eq_getElem oneLess
  have atOther := List.getElem?_eq_getElem otherLess
  refine ⟨⟨exchange heap.items (one, other), Function.update (Function.update heap.index
    heap.items[other] one) heap.items[one] other⟩,
    by simp only [Indexed.swap, atOne, atOther], rfl, ?_, ?_⟩
  · exact (exchange_perm _ _).nodup_iff.mpr wired.nodup
  · intro place item found
    dsimp only at found ⊢
    have distinct : ∀ {place known : Nat}, (known_less : known < heap.items.length) →
        place ≠ known → heap.items[place]? = some item → item ≠ heap.items[known] := by
      intro place known knownLess different isAt same
      rw [same, ← List.getElem?_eq_getElem knownLess] at isAt
      exact different ((List.getElem?_inj knownLess wired.nodup).mp isAt.symm).symm
    by_cases isOther : place = other
    · subst isOther
      rw [getElem?_exchange_right atOne otherLess] at found
      cases found
      rw [Function.update_self]
    · by_cases isOne : place = one
      · subst isOne
        rw [getElem?_exchange_left atOther oneLess isOther] at found
        cases found
        rw [Function.update_of_ne (distinct oneLess (Ne.symm isOther) atOther),
          Function.update_self]
      · rw [getElem?_exchange_of_ne isOne isOther] at found
        rw [Function.update_of_ne (distinct oneLess isOne found),
          Function.update_of_ne (distinct otherLess isOther found)]
        exact wired.aligned place item found

theorem Wired.swaps (wired : Wired heap) {swaps : List (Nat × Nat)}
    (within : ∀ swap ∈ swaps, swap.1 < heap.items.length ∧ swap.2 < heap.items.length) :
    ∃ next, heap.swaps swaps = some next ∧ next.items = exchanges heap.items swaps ∧
      Wired next := by
  induction swaps generalizing heap with
  | nil => exact ⟨heap, rfl, rfl, wired⟩
  | cons swap swaps ih =>
    obtain ⟨oneLess, otherLess⟩ := within swap List.mem_cons_self
    obtain ⟨moved, swapped, items, movedWired⟩ := wired.swap oneLess otherLess
    have length : moved.items.length = heap.items.length := by
      rw [items, (exchange_perm _ _).length_eq]
    obtain ⟨next, rest, final, nextWired⟩ := ih movedWired
      fun later member => by rw [length]; exact within later (List.mem_cons_of_mem _ member)
    refine ⟨next, ?_, ?_, nextWired⟩
    · rw [Indexed.swaps, swapped]
      exact rest
    · rw [final, items]
      rfl

theorem Wired.append (wired : Wired heap) {item : α} (new : item ∉ heap.items) :
    Wired (heap.append item) where
  nodup := by
    have swapped : (heap.items ++ [item]).Perm (item :: heap.items) := List.perm_append_comm
    refine swapped.nodup_iff.mpr ?_
    exact List.nodup_cons.mpr ⟨new, wired.nodup⟩
  aligned := by
    intro place other found
    simp only [Indexed.append, List.getElem?_append] at found ⊢
    split at found
    · have different : other ≠ item := by
        rintro rfl
        exact new (List.mem_of_getElem? found)
      rw [Function.update_of_ne different]
      exact wired.aligned place other found
    · have last := List.mem_singleton.mp (List.mem_of_getElem? found)
      have inside := (List.getElem?_eq_some_iff.mp found).1
      rw [last, Function.update_self]
      simp only [List.length_singleton] at inside
      omega

theorem Wired.removeLast (wired : Wired heap) {last : α} (isLast : heap.items.getLast? = some last) :
    ∃ next, heap.removeLast = some (next, last) ∧ next.items = heap.items.dropLast ∧
      heap.items = next.items ++ [last] ∧ Wired next := by
  have whole : heap.items.dropLast ++ [last] = heap.items := List.dropLast_append_getLast? _ isLast
  refine ⟨⟨heap.items.dropLast, Function.update heap.index last (-1)⟩,
    by simp only [Indexed.removeLast, isLast, Option.map_some], rfl, whole.symm, ?_, ?_⟩
  · exact wired.nodup.sublist (List.dropLast_sublist _)
  · intro place item found
    have nodup := wired.nodup
    rw [← whole] at nodup
    have different : item ≠ last := fun same =>
      (List.nodup_append.mp nodup).2.2 item (List.mem_of_getElem? found) last
        List.mem_cons_self same
    refine (Function.update_of_ne different _ _).trans (wired.aligned place item ?_)
    rw [← whole, List.getElem?_append_left (List.getElem?_eq_some_iff.mp found).1]
    exact found

/-- Adding an item to a heap. -/
theorem Wired.push (library : Library less) (wired : Wired heap) (isHeap : library.Heap heap.items)
    {item : α} (new : item ∉ heap.items) :
    ∃ next, heap.push library item = some next ∧ next.items.Perm (item :: heap.items) ∧
      Wired next ∧ library.Heap next.items := by
  obtain ⟨next, swapped, items, nextWired⟩ :=
    (wired.append new).swaps (library.push_within (heap.items ++ [item]))
  refine ⟨next, swapped, ?_, nextWired, ?_⟩
  · rw [items]
    exact (exchanges_perm _ _).trans List.perm_append_comm
  · rw [items]
    exact library.heap_push heap.items item isHeap

/-- Removing an item from a heap. -/
theorem Wired.remove (library : Library less) (wired : Wired heap)
    (isHeap : library.Heap heap.items) {place : Nat} {item : α}
    (found : heap.items[place]? = some item) :
    ∃ next, heap.remove library place = some (next, item) ∧
      heap.items.Perm (item :: next.items) ∧ Wired next ∧ library.Heap next.items := by
  have inside := (List.getElem?_eq_some_iff.mp found).1
  have lastFirst : ∀ {items rest : List α}, items = rest ++ [item] → items.Perm (item :: rest) := by
    rintro items rest rfl
    exact List.perm_append_comm
  unfold Indexed.remove
  split
  · rename_i isLast
    have last : heap.items.getLast? = some item := by
      rw [List.getLast?_eq_getElem?, ← isLast]
      exact found
    obtain ⟨next, removed, items, whole, nextWired⟩ := wired.removeLast last
    refine ⟨next, removed, lastFirst whole, nextWired, ?_⟩
    rw [items]
    exact library.heap_dropLast _ isHeap
  · rename_i notLast
    have lastLess : heap.items.length - 1 < heap.items.length := by omega
    obtain ⟨moved, swapped, movedItems, movedWired⟩ := wired.swap inside lastLess
    have movedPerm : moved.items.Perm heap.items := by
      rw [movedItems]
      exact exchange_perm _ _
    have movedLength := movedPerm.length_eq
    have within := library.remove_within moved.items place
    have below : ∀ swap ∈ library.removeSwaps moved.items place,
        swap.1 < moved.items.length ∧ swap.2 < moved.items.length := by
      intro swap member
      have bounds := within swap member
      omega
    obtain ⟨sorted, swappedAll, sortedItems, sortedWired⟩ := movedWired.swaps below
    have sortedPerm : sorted.items.Perm moved.items := by
      rw [sortedItems]
      exact exchanges_perm _ _
    -- The swaps stay below the last place, where the item waits to be taken.
    have last : sorted.items.getLast? = some item := by
      rw [List.getLast?_eq_getElem?, sortedPerm.length_eq, movedLength, sortedItems,
        getElem?_exchanges, movedItems, getElem?_exchange_right found lastLess]
      intro swap member
      have bounds := within swap member
      omega
    obtain ⟨next, removed, items, whole, nextWired⟩ := sortedWired.removeLast last
    refine ⟨next, ?_, ?_, nextWired, ?_⟩
    · rw [swapped, Option.bind_some, swappedAll, Option.bind_some, removed]
    · exact (sortedPerm.trans movedPerm).symm.trans (lastFirst whole)
    · rw [items, sortedItems, movedItems]
      exact library.heap_remove heap.items place isHeap (by omega)

end Indexed

/-! ## A library -/

section Scanning

variable (less : α → α → Bool)

/-- The place of a least item. -/
def minPlace : List α → Nat
  | [] => 0
  | first :: rest =>
    match rest[minPlace rest]? with
    | none => 0
    | some least => if less first least then 0 else minPlace rest + 1

variable {less} (irreflexive : ∀ item, less item item = false)
  (transitive : ∀ first second third, less first second = true → less second third = true →
    less first third = true)

include irreflexive transitive

theorem minPlace_spec {items : List α} (nonempty : items ≠ []) :
    ∃ least, items[minPlace less items]? = some least ∧ ∀ item ∈ items, less item least = false := by
  induction items with
  | nil => exact absurd rfl nonempty
  | cons first rest ih =>
    cases rest with
    | nil => exact ⟨first, rfl, by simp [irreflexive]⟩
    | cons second more =>
      obtain ⟨least, found, minimal⟩ := ih (List.cons_ne_nil _ _)
      rw [minPlace.eq_def]
      simp only [found]
      by_cases smaller : less first least = true
      · refine ⟨first, by rw [if_pos smaller]; rfl, fun item member => ?_⟩
        rcases List.mem_cons.mp member with rfl | later
        · exact irreflexive _
        · rw [← Bool.not_eq_true]
          intro below
          have impossible := transitive _ _ _ below smaller
          rw [minimal item later] at impossible
          cases impossible
      · refine ⟨least, by rw [if_neg smaller]; exact found, fun item member => ?_⟩
        rcases List.mem_cons.mp member with rfl | later
        · exact Bool.eq_false_iff.mpr smaller
        · exact minimal item later

omit irreflexive transitive in
/-- The items before the last one after an exchange among them. -/
theorem mem_dropLast_exchange {items : List α} {place : Nat} {item : α}
    (below : place + 1 < items.length) (member : item ∈ (exchange items (0, place)).dropLast) :
    item ∈ items.dropLast := by
  obtain ⟨known, found⟩ := List.mem_iff_getElem?.mp member
  have length := (exchange_perm items (0, place)).length_eq
  rw [List.getElem?_dropLast, length] at found
  split at found
  case isFalse => cases found
  case isTrue inside =>
      have before : ∀ {index : Nat}, index < items.length - 1 → items[index]? = some item →
          item ∈ items.dropLast := by
        intro index less isAt
        have stays : items.dropLast[index]? = some item := by
          rwa [List.getElem?_dropLast, if_pos less]
        exact List.mem_of_getElem? stays
      by_cases isPlace : known = place
      · rw [isPlace, getElem?_exchange_right (List.getElem?_eq_getElem (by omega)) (by omega)] at found
        exact before (by omega) ((List.getElem?_eq_getElem (by omega)).trans found)
      · by_cases isRoot : known = 0
        · rw [isRoot, getElem?_exchange_left (List.getElem?_eq_getElem (by omega)) (by omega)
            (by omega)] at found
          exact before (by omega) ((List.getElem?_eq_getElem (by omega)).trans found)
        · rw [getElem?_exchange_of_ne isRoot isPlace] at found
          exact before inside found

omit irreflexive transitive in
theorem getElem?_exchange_root {items : List α} {place : Nat} (below : place < items.length) :
    (exchange items (0, place))[0]? = items[place]? := by
  rw [List.getElem?_eq_getElem below]
  by_cases isRoot : place = 0
  · subst isRoot
    exact getElem?_exchange_right (List.getElem?_eq_getElem below) below
  · exact getElem?_exchange_left (List.getElem?_eq_getElem below) (by omega) (Ne.symm isRoot)

/-- A library that keeps no more than a least item in front: it looks for one each time. -/
def scanning : Library less where
  Heap items := ∀ first, items[0]? = some first → ∀ item ∈ items, less item first = false
  pushSwaps items := if items = [] then [] else [(0, minPlace less items)]
  removeSwaps items _ := if items.length ≤ 1 then [] else [(0, minPlace less items.dropLast)]
  push_within := by
    intro items swap member
    split at member
    · cases member
    · rename_i nonempty
      obtain ⟨least, found, -⟩ := minPlace_spec irreflexive transitive nonempty
      have inside := (List.getElem?_eq_some_iff.mp found).1
      rw [List.mem_singleton.mp member]
      exact ⟨Nat.lt_of_le_of_lt (Nat.zero_le _) inside, inside⟩
  remove_within := by
    intro items place swap member
    split at member
    · cases member
    · rename_i several
      have nonempty : items.dropLast ≠ [] := by
        rw [← List.length_pos_iff, List.length_dropLast]
        omega
      obtain ⟨least, found, -⟩ := minPlace_spec irreflexive transitive nonempty
      have inside := (List.getElem?_eq_some_iff.mp found).1
      rw [List.length_dropLast] at inside
      rw [List.mem_singleton.mp member]
      dsimp only
      omega
  heap_nil := by simp
  heap_root := fun first rest isHeap item member =>
    isHeap first rfl item (List.mem_cons_of_mem _ member)
  heap_push := by
    intro items item _ first isFirst other member
    have nonempty : items ++ [item] ≠ [] := by simp
    obtain ⟨least, found, minimal⟩ := minPlace_spec irreflexive transitive nonempty
    rw [if_neg nonempty] at isFirst member
    have root := getElem?_exchange_root (List.getElem?_eq_some_iff.mp found).1
    obtain rfl := Option.some.inj (isFirst.symm.trans (root.trans found))
    exact minimal other ((exchange_perm _ _).mem_iff.mp member)
  heap_dropLast := by
    intro items isHeap first isFirst item member
    rw [List.getElem?_dropLast] at isFirst
    split at isFirst
    · exact isHeap first isFirst item ((List.dropLast_sublist items).subset member)
    · cases isFirst
  heap_remove := by
    intro items place _ inside
    dsimp only
    generalize movedEq : exchange items (place, items.length - 1) = moved
    have length : moved.length = items.length := by rw [← movedEq, (exchange_perm _ _).length_eq]
    intro first isFirst item member
    have nonempty : moved.dropLast ≠ [] := by
      rw [← List.length_pos_iff, List.length_dropLast]
      omega
    obtain ⟨least, found, minimal⟩ := minPlace_spec irreflexive transitive nonempty
    have below := (List.getElem?_eq_some_iff.mp found).1
    rw [List.length_dropLast] at below
    rw [if_neg (by omega)] at isFirst member
    rw [List.getElem?_dropLast, if_pos below] at found
    have root := getElem?_exchange_root (Nat.lt_of_lt_of_le below (Nat.sub_le _ _))
    rw [exchanges, List.foldl_cons, List.foldl_nil, List.getElem?_dropLast,
      (exchange_perm _ _).length_eq, if_pos (by omega), root] at isFirst
    obtain rfl := Option.some.inj (isFirst.symm.trans found)
    exact minimal item (mem_dropLast_exchange (by omega) member)

end Scanning

end Plumego.Lib
