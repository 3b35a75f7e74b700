/-
Module: Plumego.Lib.Chain
Purpose: Linked sequences kept in pointer maps: what following one map visits, and how redirecting a
  pointer cuts an element out or adds one at an end. Chains of entries, each of which carries the
  digest of the one before it and its own: how they grow, and what two chains with the same last
  digest have in common.
Trusted boundary: none
Main exports: Visits, Chain, chain_bypass, chain_cons, chain_snoc, Scheme, Linked,
  forall₂_of_lastDigest_eq
-/
import Mathlib.Data.List.Basic
import Mathlib.Data.List.Forall2
import Mathlib.Data.List.Nodup
import Mathlib.Logic.Function.Basic

namespace Plumego.Lib

variable {P : Type}

/-- Following `links` from `start` visits exactly the listed elements and then
stops. -/
def Visits (links : P → Option P) : Option P → List P → Prop
  | start, [] => start = none
  | start, element :: rest => start = some element ∧ Visits links (links element) rest

/-- Each element of the sequence is linked to the one behind it, the last one
to nothing. -/
def Chain (links : P → Option P) (order : List P) : Prop :=
  ∀ front element back, order = front ++ element :: back → links element = back.head?

theorem chain_nil (links : P → Option P) : Chain links [] := by
  intro front element back split
  simp at split

theorem chain_tail {links : P → Option P} {element : P} {rest : List P}
    (chain : Chain links (element :: rest)) : Chain links rest := by
  intro front other back split
  exact chain (element :: front) other back (by rw [split, List.cons_append])

/-- A walk is its first element and the chain from there. -/
theorem visits_iff {links : P → Option P} {start : Option P} {order : List P} :
    Visits links start order ↔ start = order.head? ∧ Chain links order := by
  induction order generalizing start with
  | nil =>
    constructor
    · exact fun stopped => ⟨stopped, chain_nil links⟩
    · exact fun both => both.1
  | cons first rest ih =>
    rw [Visits, ih]
    constructor
    · rintro ⟨startEq, linked, chain⟩
      refine ⟨startEq, ?_⟩
      intro front element back split
      cases front with
      | nil =>
        rw [List.nil_append, List.cons.injEq] at split
        rw [← split.1, ← split.2, linked]
      | cons head front =>
        rw [List.cons_append, List.cons.injEq] at split
        exact chain front element back split.2
    · rintro ⟨startEq, chain⟩
      exact ⟨startEq, chain [] first rest rfl, chain_tail chain⟩

/-- A walk is determined by where it starts. -/
theorem visits_unique {links : P → Option P} {start : Option P} {order other : List P}
    (first : Visits links start order) (second : Visits links start other) :
    order = other := by
  induction order generalizing start other with
  | nil =>
    cases other with
    | nil => rfl
    | cons element rest =>
      simp only [Visits] at first second
      simp [first] at second
  | cons element rest ih =>
    cases other with
    | nil =>
      simp only [Visits] at first second
      simp [second] at first
    | cons next others =>
      rw [Visits] at first second
      have same : element = next := Option.some.inj (first.1.symm.trans second.1)
      subst same
      rw [ih first.2 second.2]

variable [DecidableEq P]

instance decidableVisits (links : P → Option P) :
    (start : Option P) → (order : List P) → Decidable (Visits links start order)
  | start, [] => inferInstanceAs (Decidable (start = none))
  | start, element :: rest =>
    have := decidableVisits links (links element) rest
    inferInstanceAs (Decidable (start = some element ∧ Visits links (links element) rest))

/-- Set the pointer of an element, if there is one to set. -/
def redirect (links : P → Option P) (source target : Option P) : P → Option P :=
  match source with
  | some element => Function.update links element target
  | none => links

theorem redirect_of_ne {links : P → Option P} {source target : Option P} {element : P}
    (other : source ≠ some element) : redirect links source target element = links element := by
  cases source with
  | none => rfl
  | some first =>
    have different : element ≠ first := fun same => other (by rw [same])
    rw [redirect, Function.update_of_ne different]

@[simp] theorem redirect_self (links : P → Option P) (element : P) (target : Option P) :
    redirect links (some element) target element = target := by
  rw [redirect, Function.update_self]

/-- Pointers of elements outside the sequence do not matter to its chain. -/
theorem chain_update {links : P → Option P} {order : List P} {element : P}
    (outside : element ∉ order) (target : Option P) (chain : Chain links order) :
    Chain (Function.update links element target) order := by
  intro front other back split
  have different : other ≠ element := by
    rintro rfl
    exact outside (by rw [split]; simp)
  rw [Function.update_of_ne different, chain front other back split]

/-- Pointing the element in front of `element` at what lies behind it cuts
`element` out of the chain. -/
theorem chain_bypass {links : P → Option P} {front back : List P} {element : P}
    (nodup : (front ++ element :: back).Nodup)
    (chain : Chain links (front ++ element :: back)) :
    Chain (redirect links front.getLast? back.head?) (front ++ back) := by
  intro before other after split
  rcases List.append_eq_append_iff.mp split with ⟨middle, beforeEq, backEq⟩ |
    ⟨middle, frontEq, afterEq⟩
  · -- `other` lies behind the cut
    subst beforeEq backEq
    have untouched : front.getLast? ≠ some other := by
      intro isLast
      have inFront := List.mem_of_getLast? isLast
      rw [List.nodup_append] at nodup
      exact nodup.2.2 other inFront other (by simp) rfl
    rw [redirect_of_ne untouched]
    exact chain (front ++ element :: middle) other after (by simp)
  · cases middle with
    | nil =>
      -- the cut falls exactly before `other`
      rw [List.append_nil] at frontEq
      rw [List.nil_append] at afterEq
      subst frontEq
      have untouched : front.getLast? ≠ some other := by
        intro isLast
        have inFront := List.mem_of_getLast? isLast
        rw [List.nodup_append] at nodup
        exact nodup.2.2 other inFront other (by simp [← afterEq]) rfl
      rw [redirect_of_ne untouched]
      exact chain (front ++ [element]) other after (by simp [← afterEq])
    | cons head middle =>
      rw [List.cons_append, List.cons.injEq] at afterEq
      obtain ⟨rfl, rfl⟩ := afterEq
      subst frontEq
      cases middle with
      | nil => simp
      | cons next middle =>
        have untouched : (before ++ other :: next :: middle).getLast? ≠ some other := by
          intro isLast
          rw [List.getLast?_append_of_ne_nil _ (by simp), List.getLast?_cons_cons]
            at isLast
          have later := List.mem_of_getLast? isLast
          rw [List.append_assoc, List.nodup_append, List.cons_append,
            List.nodup_cons] at nodup
          exact nodup.2.1.1 (List.mem_append_left _ later)
        rw [redirect_of_ne untouched]
        exact (chain before other (next :: middle ++ element :: back) (by simp)).trans
          (by simp)

/-- A new first element, linked to the one that was first. -/
theorem chain_cons {links : P → Option P} {order : List P} {element : P}
    (outside : element ∉ order) (chain : Chain links order) :
    Chain (Function.update links element order.head?) (element :: order) := by
  intro front other back split
  cases front with
  | nil =>
    rw [List.nil_append, List.cons.injEq] at split
    rw [← split.1, ← split.2, Function.update_self]
  | cons head front =>
    rw [List.cons_append, List.cons.injEq] at split
    exact chain_update outside _ chain front other back split.2

/-- A new last element, with the one that was last linked to it. -/
theorem chain_snoc {links : P → Option P} {order : List P} {element : P}
    (outside : element ∉ order) (nodup : order.Nodup) (chain : Chain links order) :
    Chain (redirect (Function.update links element none) order.getLast? (some element))
      (order ++ [element]) := by
  intro front other back split
  rcases List.eq_nil_or_concat back with rfl | ⟨init, last, rfl⟩
  · -- `other` is the new element
    obtain ⟨rfl, same⟩ := List.append_inj' split rfl
    rw [List.cons.injEq] at same
    obtain ⟨rfl, -⟩ := same
    have untouched : order.getLast? ≠ some element :=
      fun isLast => outside (List.mem_of_getLast? isLast)
    rw [redirect_of_ne untouched, Function.update_self, List.head?_nil]
  · have ends : order ++ [element] = (front ++ other :: init) ++ [last] := by
      rw [split]
      simp
    obtain ⟨orderEq, same⟩ := List.append_inj' ends rfl
    rw [List.cons.injEq] at same
    obtain ⟨rfl, -⟩ := same
    subst orderEq
    cases init with
    | nil => simp
    | cons next init =>
      have untouched : (front ++ other :: next :: init).getLast? ≠ some other := by
        intro isLast
        rw [List.getLast?_append_of_ne_nil _ (by simp), List.getLast?_cons_cons]
          at isLast
        have later := List.mem_of_getLast? isLast
        rw [List.nodup_append, List.nodup_cons] at nodup
        exact nodup.2.1.1 later
      have different : other ≠ element := by
        rintro rfl
        exact outside (by simp)
      rw [redirect_of_ne untouched, Function.update_of_ne different]
      exact (chain front other (next :: init) rfl).trans (by simp)

end Plumego.Lib

/-! ## Chains of digests -/

namespace Plumego.Lib.HashChain

/-- The digests that an entry carries, and the one it should carry. -/
structure Scheme (Entry Digest : Type) where
  previous : Entry → Digest
  digest : Entry → Digest
  compute : Entry → Digest

variable {Entry Digest : Type} (scheme : Scheme Entry Digest)

/-- A chain that continues from a digest. -/
def Linked : Digest → List Entry → Prop
  | _, [] => True
  | start, entry :: entries =>
    scheme.previous entry = start ∧ scheme.digest entry = scheme.compute entry ∧
      Linked (scheme.digest entry) entries

/-- The digest that the next entry has to carry. -/
def lastDigest (start : Digest) (entries : List Entry) : Digest :=
  entries.foldl (fun _ entry => scheme.digest entry) start

theorem lastDigest_append (start : Digest) (first second : List Entry) :
    lastDigest scheme start (first ++ second) =
      lastDigest scheme (lastDigest scheme start first) second :=
  List.foldl_append

theorem lastDigest_concat (start : Digest) (entries : List Entry) (entry : Entry) :
    lastDigest scheme start (entries ++ [entry]) = scheme.digest entry :=
  lastDigest_append scheme start entries [entry]

theorem linked_append {start : Digest} {first second : List Entry} :
    Linked scheme start (first ++ second) ↔
      Linked scheme start first ∧ Linked scheme (lastDigest scheme start first) second := by
  induction first generalizing start with
  | nil => exact ⟨fun linked => ⟨trivial, linked⟩, fun both => both.2⟩
  | cons entry first ih =>
    rw [List.cons_append, Linked, Linked, ih]
    exact ⟨fun ⟨previous, digest, rest, last⟩ => ⟨⟨previous, digest, rest⟩, last⟩,
      fun ⟨⟨previous, digest, rest⟩, last⟩ => ⟨previous, digest, rest, last⟩⟩

/-- A chain grows by an entry that carries the last digest and its own. -/
theorem linked_concat {start : Digest} {entries : List Entry} {entry : Entry}
    (linked : Linked scheme start entries)
    (previous : scheme.previous entry = lastDigest scheme start entries)
    (digest : scheme.digest entry = scheme.compute entry) :
    Linked scheme start (entries ++ [entry]) :=
  (linked_append scheme).mpr ⟨linked, previous, digest, trivial⟩

/-- Two chains with the same last digest: if corresponding entries with the same digest, whose
previous digests are alike, are related and have the same previous digest, then all
corresponding entries are related. -/
theorem forall₂_of_lastDigest_eq (alike : Digest → Digest → Prop)
    {comparable related : Entry → Entry → Prop} {first second : List Entry}
    (alikeComputed : ∀ entry ∈ first, ∀ other ∈ second,
      alike (scheme.compute entry) (scheme.compute other))
    (determined : ∀ entry ∈ first, ∀ other ∈ second, comparable entry other →
      alike (scheme.previous entry) (scheme.previous other) →
      scheme.compute entry = scheme.compute other →
        related entry other ∧ scheme.previous entry = scheme.previous other)
    {start otherStart : Digest} (alikeStart : alike start otherStart)
    (linked : Linked scheme start first) (otherLinked : Linked scheme otherStart second)
    (allComparable : List.Forall₂ comparable first second)
    (sameLast : lastDigest scheme start first = lastDigest scheme otherStart second) :
    List.Forall₂ related first second ∧ start = otherStart := by
  -- The chains are taken apart from the front; the digests are equal from the back.
  induction allComparable generalizing start otherStart with
  | nil => exact ⟨.nil, sameLast⟩
  | @cons entry other first second areComparable allComparable ih =>
    obtain ⟨previous, digest, rest⟩ := linked
    obtain ⟨otherPrevious, otherDigest, otherRest⟩ := otherLinked
    have alikeDigests : alike (scheme.digest entry) (scheme.digest other) := by
      rw [digest, otherDigest]
      exact alikeComputed entry List.mem_cons_self other List.mem_cons_self
    obtain ⟨restRelated, sameDigest⟩ := ih
      (fun item member otherItem otherMember => alikeComputed item
        (List.mem_cons_of_mem _ member) otherItem (List.mem_cons_of_mem _ otherMember))
      (fun item member otherItem otherMember => determined item
        (List.mem_cons_of_mem _ member) otherItem (List.mem_cons_of_mem _ otherMember))
      alikeDigests rest otherRest sameLast
    rw [digest, otherDigest] at sameDigest
    rw [← previous, ← otherPrevious] at alikeStart
    obtain ⟨areRelated, samePrevious⟩ := determined entry List.mem_cons_self other
      List.mem_cons_self areComparable alikeStart sameDigest
    rw [previous, otherPrevious] at samePrevious
    exact ⟨.cons areRelated restRelated, samePrevious⟩

end Plumego.Lib.HashChain
