/-
Module: Plumego.Proofs.RouterDispatch
Purpose: The `Allow` list of a 405 answer: it holds exactly the methods that
  would match the path, sorted and each once.
Trusted boundary: none
Main exports: sortStrings_perm, sortStrings_sorted, mem_allowedMethods, allowedMethods_exact
-/
import Plumego.Router.Dispatch

namespace Plumego.Router

open Go

variable {H : Type}

/-! ## Sorted method lists -/

theorem sortStrings_perm (texts : List Bytes) : (sortStrings texts).Perm texts :=
  List.mergeSort_perm texts _

theorem sortStrings_sorted (texts : List Bytes) :
    (sortStrings texts).Pairwise (· ≤ ·) := by
  have ordered : (sortStrings texts).Pairwise
      (fun left right => decide (left ≤ right) = true) := by
    apply List.pairwise_mergeSort
    · intro first second third one two
      simp only [decide_eq_true_eq] at one two ⊢
      exact le_trans one two
    · intro first second
      simpa using le_total first second
  simpa using ordered

/-- A sorted list is determined by its members' multiplicities. -/
theorem eq_of_perm_sorted {left right : List Bytes} (same : left.Perm right)
    (leftSorted : left.Pairwise (· ≤ ·)) (rightSorted : right.Pairwise (· ≤ ·)) :
    left = right := by
  refine same.eq_of_pairwise ?_ leftSorted rightSorted
  intro first second _ _ one two
  exact le_antisymm one two

/-- One element needs no sorting. -/
theorem sorted_of_length_le_one {texts : List Bytes} (short : ¬ 1 < texts.length) :
    texts.Pairwise (· ≤ ·) := by
  cases texts with
  | nil => exact .nil
  | cons first rest =>
    have alone : rest = [] := by
      apply List.eq_nil_of_length_eq_zero
      simp only [List.length_cons] at short
      omega
    rw [alone]
    exact List.pairwise_singleton _ _

/-! ## The members of the list -/

/-- The methods whose own tree matches the path, as the loop collects them. -/
def matchingMethods (state : RouterState H) (path : Bytes) : List Bytes :=
  state.trees.keys.filter fun method =>
    method ≠ methodAny ∧ (matchTree state method path).isSome

theorem mem_matchingMethods {state : RouterState H} {path method : Bytes} :
    method ∈ matchingMethods state path ↔
      method ≠ methodAny ∧ (matchTree state method path).isSome := by
  simp only [matchingMethods, List.mem_filter, decide_eq_true_eq, and_iff_right_iff_imp]
  rintro ⟨_, matched⟩
  -- a method without a tree matches nothing
  have present : (state.trees.lookup method).isSome := by
    cases treeEq : state.trees.lookup method with
    | none => simp [matchTree, treeEq] at matched
    | some tree => rfl
  exact AList.lookup_isSome.mp present

theorem nodup_matchingMethods (state : RouterState H) (path : Bytes) :
    (matchingMethods state path).Nodup :=
  state.trees.keys_nodup.filter _

/-- The list before the implicit HEAD: the matching methods, sorted. -/
def sortedMatching (state : RouterState H) (path : Bytes) : List Bytes :=
  if 1 < (matchingMethods state path).length then
    sortStrings (matchingMethods state path)
  else matchingMethods state path

theorem sortedMatching_perm (state : RouterState H) (path : Bytes) :
    (sortedMatching state path).Perm (matchingMethods state path) := by
  unfold sortedMatching
  split
  · exact sortStrings_perm _
  · exact List.Perm.refl _

theorem sortedMatching_sorted (state : RouterState H) (path : Bytes) :
    (sortedMatching state path).Pairwise (· ≤ ·) := by
  unfold sortedMatching
  split
  case isTrue long => exact sortStrings_sorted _
  case isFalse short => exact sorted_of_length_le_one short

theorem allowedMethods_eq (state : RouterState H) {path : Bytes} (nonempty : path ≠ []) :
    allowedMethods state path =
      appendImplicitHeadMethod (sortedMatching state path) := by
  simp only [allowedMethods, if_neg nonempty]
  rfl

/-- HEAD joins a list that has GET; everything else stays. -/
theorem mem_appendImplicitHeadMethod {methods : List Bytes} {method : Bytes} :
    method ∈ appendImplicitHeadMethod methods ↔
      method ∈ methods ∨ (method = methodHead ∧ methodGet ∈ methods) := by
  unfold appendImplicitHeadMethod
  split
  case isTrue kept =>
      constructor
      · exact Or.inl
      · rintro (old | ⟨rfl, hasGet⟩)
        · exact old
        · rcases kept with noGet | hasHead
          · exact absurd hasGet noGet
          · exact hasHead
  case isFalse added =>
      simp only [not_or, not_not] at added
      rw [(sortStrings_perm _).mem_iff, List.mem_append, List.mem_singleton]
      simp [added.1]

theorem appendImplicitHeadMethod_sorted {methods : List Bytes}
    (sorted : methods.Pairwise (· ≤ ·)) :
    (appendImplicitHeadMethod methods).Pairwise (· ≤ ·) := by
  unfold appendImplicitHeadMethod
  split
  · exact sorted
  · exact sortStrings_sorted _

theorem appendImplicitHeadMethod_nodup {methods : List Bytes} (distinct : methods.Nodup) :
    (appendImplicitHeadMethod methods).Nodup := by
  unfold appendImplicitHeadMethod
  split
  case isTrue kept => exact distinct
  case isFalse added =>
      simp only [not_or, not_not] at added
      rw [(sortStrings_perm _).nodup_iff, List.nodup_append]
      refine ⟨distinct, List.nodup_singleton _, ?_⟩
      intro member inList head isHead same
      rw [List.mem_singleton.mp isHead] at same
      exact added.2 (same ▸ inList)

theorem mem_allowedMethods {state : RouterState H} {path method : Bytes}
    (nonempty : path ≠ []) :
    method ∈ allowedMethods state path ↔
      (method ≠ methodAny ∧ (matchTree state method path).isSome) ∨
        (method = methodHead ∧ (matchTree state methodGet path).isSome) := by
  have getOrdinary : methodGet ≠ methodAny := by decide
  rw [allowedMethods_eq state nonempty, mem_appendImplicitHeadMethod,
    (sortedMatching_perm state path).mem_iff, (sortedMatching_perm state path).mem_iff,
    mem_matchingMethods, mem_matchingMethods]
  simp [getOrdinary]

/-- What makes a request match: its own tree, the GET tree for HEAD, or ANY. -/
theorem matchRoute_isSome {state : RouterState H} {method path : Bytes} :
    (matchRoute state method path).isSome ↔
      (method ≠ methodAny ∧ (matchTree state method path).isSome) ∨
        (method = methodHead ∧ (matchTree state methodGet path).isSome) ∨
        (matchTree state methodAny path).isSome := by
  unfold matchRoute
  dsimp only
  rw [Option.isSome_or, Option.isSome_or]
  have direct : (if method ≠ methodAny then matchTree state method path
      else none).isSome ↔ method ≠ methodAny ∧ (matchTree state method path).isSome := by
    split
    case isTrue ordinary => simp [ordinary]
    case isFalse any => simp [any]
  have asGet : (if method = methodHead then matchTree state methodGet path
      else none).isSome ↔ method = methodHead ∧ (matchTree state methodGet path).isSome := by
    split
    case isTrue head => simp [head]
    case isFalse other => simp [other]
  rw [Bool.or_eq_true, Bool.or_eq_true, direct, asGet, or_assoc]

/-- Where no route answers the request, the `Allow` list of a non-empty path
holds exactly the methods that would be answered; it is sorted and names each
method once. -/
theorem allowedMethods_exact (state : RouterState H) (method path : Bytes)
    (normalised : path ≠ []) (unmatched : matchRoute state method path = none) :
    (∀ other, other ∈ allowedMethods state path ↔
        (matchRoute state other path).isSome) ∧
      (allowedMethods state path).Pairwise (· ≤ ·) ∧
      (allowedMethods state path).Nodup := by
  have noAny : ¬ (matchTree state methodAny path).isSome := by
    intro answered
    have matched : (matchRoute state method path).isSome :=
      matchRoute_isSome.mpr (.inr (.inr answered))
    simp [unmatched] at matched
  refine ⟨?_, ?_, ?_⟩
  · intro other
    rw [mem_allowedMethods normalised, matchRoute_isSome, or_iff_left noAny]
  · rw [allowedMethods_eq state normalised]
    exact appendImplicitHeadMethod_sorted (sortedMatching_sorted state path)
  · rw [allowedMethods_eq state normalised]
    apply appendImplicitHeadMethod_nodup
    rw [(sortedMatching_perm state path).nodup_iff]
    exact nodup_matchingMethods state path

/-- A router with one GET route on the root. -/
def rootGetRouter : RouterState Unit :=
  (newRouterState Unit 1).setTree methodGet { handler := some () }

/-- A POST to that root is refused; HEAD is answered there. -/
theorem allowedMethods_exact_root :
    matchRoute rootGetRouter (ascii "POST") [slash] = none ∧
      (matchRoute rootGetRouter methodHead [slash]).isSome ∧
      ∀ other, other ∈ allowedMethods rootGetRouter [slash] ↔
        (matchRoute rootGetRouter other [slash]).isSome :=
  ⟨by decide +kernel, by decide +kernel,
    (allowedMethods_exact rootGetRouter (ascii "POST") [slash] (by decide)
      (by decide +kernel)).1⟩

end Plumego.Router
