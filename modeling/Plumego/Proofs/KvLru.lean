/-
Module: Plumego.Proofs.KvLru
Purpose: The recency list of the key-value engine's shards over whole runs of
  locked sections: which sections keep it exact and which one does not.
Trusted boundary: none
Main exports: Linked, LruExact, Section, Tracked, sectionMachine,
  lruExact_iff_solitary
-/
import Plumego.KvEngine.Lru
import Plumego.Lib.Machine

namespace Plumego.KvEngine

open Go Lib

/-! ## The list of one shard -/

/-- Removing a key deletes it from the map, present or not. -/
theorem Shard.remove_data (shard : Shard) (key : Bytes) :
    (shard.remove key).data = shard.data.erase key := by
  unfold Shard.remove
  cases found : shard.data.lookup key with
  | some entry => rfl
  | none =>
    apply AList.ext
    exact (List.kerase_of_notMem_keys (AList.lookup_eq_none.mp found)).symm

/-- The pointer maps of a shard chain the entries it holds in the given order,
front to back. The tail pointer is stated apart. -/
structure Linked (shard : Shard) (order : List EntryPtr) : Prop where
  forward : Chain shard.next order
  backward : Chain shard.prev order.reverse
  head : shard.lruHead = order.head?
  nodup : order.Nodup
  held : order.Perm shard.held

namespace Linked

variable {shard : Shard} {order front back : List EntryPtr} {entry : EntryPtr}

theorem next_eq (linked : Linked shard (front ++ entry :: back)) :
    shard.next entry = back.head? :=
  linked.forward front entry back rfl

theorem prev_eq (linked : Linked shard (front ++ entry :: back)) :
    shard.prev entry = front.getLast? := by
  have reversed := linked.backward back.reverse entry front.reverse (by simp)
  rwa [List.head?_reverse] at reversed

theorem notMem_front (linked : Linked shard (front ++ entry :: back)) : entry ∉ front := by
  intro member
  have distinct := linked.nodup
  rw [List.nodup_append] at distinct
  exact distinct.2.2 entry member entry List.mem_cons_self rfl

theorem notMem_back (linked : Linked shard (front ++ entry :: back)) : entry ∉ back := by
  have distinct := linked.nodup
  rw [List.nodup_append, List.nodup_cons] at distinct
  exact distinct.2.1.1

/-- The order around one of its entries, and without it. -/
theorem split (linked : Linked shard order) (member : entry ∈ order) :
    ∃ front back, order = front ++ entry :: back ∧ order.erase entry = front ++ back := by
  obtain ⟨front, back, rfl⟩ := List.append_of_mem member
  refine ⟨front, back, rfl, ?_⟩
  rw [List.erase_append_right _ linked.notMem_front, List.erase_cons_head]

/-- The pointer of the entry itself survives the first redirection of
`moveToFront` and `deleteFromShard`. -/
theorem next_redirected (linked : Linked shard (front ++ entry :: back)) :
    redirect shard.next (shard.prev entry) (shard.next entry) entry = back.head? := by
  have untouched : shard.prev entry ≠ some entry := by
    rw [linked.prev_eq]
    exact fun isLast => linked.notMem_front (List.mem_of_getLast? isLast)
  rw [redirect_of_ne untouched, linked.next_eq]

theorem prev_redirected (linked : Linked shard (front ++ entry :: back)) :
    redirect shard.prev back.head? (shard.prev entry) entry = front.getLast? := by
  have untouched : back.head? ≠ some entry :=
    fun isFirst => linked.notMem_back (List.mem_of_head? isFirst)
  rw [redirect_of_ne untouched, linked.prev_eq]

/-- The forward chain with the entry cut out. -/
theorem forward_bypass (linked : Linked shard (front ++ entry :: back)) :
    Chain (redirect shard.next (shard.prev entry) (shard.next entry)) (front ++ back) := by
  rw [linked.prev_eq, linked.next_eq]
  exact chain_bypass linked.nodup linked.forward

/-- The backward chain with the entry cut out. -/
theorem backward_bypass (linked : Linked shard (front ++ entry :: back)) :
    Chain (redirect shard.prev back.head? (shard.prev entry)) (front ++ back).reverse := by
  have reversed : (front ++ entry :: back).reverse =
      back.reverse ++ entry :: front.reverse := by simp
  have nodup := List.nodup_reverse.mpr linked.nodup
  have backward := linked.backward
  rw [reversed] at nodup backward
  have cut := chain_bypass nodup backward
  rwa [List.getLast?_reverse, List.head?_reverse, ← List.reverse_append,
    ← linked.prev_eq] at cut

/-- The last entry once one entry is cut out. -/
theorem tail_bypass (front back : List EntryPtr) (entry : EntryPtr) :
    (if back.head? = none then front.getLast? else (front ++ entry :: back).getLast?) =
      (front ++ back).getLast? := by
  cases back with
  | nil => simp
  | cons next rest =>
    rw [if_neg (by simp), List.getLast?_append_of_ne_nil _ (by simp),
      List.getLast?_append_of_ne_nil _ (by simp), List.getLast?_cons_cons]

/-- The first entry once one entry is cut out. -/
theorem head_bypass (front back : List EntryPtr) (entry : EntryPtr) :
    (if front.getLast? = none then back.head? else (front ++ entry :: back).head?) =
      (front ++ back).head? := by
  cases front with
  | nil => simp
  | cons first rest => simp

/-- `deleteFromShard` of an entry the shard holds takes it out of the list. -/
theorem unlink {key : Bytes} (linked : Linked shard order)
    (tail : shard.lruTail = order.getLast?) (found : shard.data.lookup key = some entry) :
    Linked (shard.unlink key entry) (order.erase entry) ∧
      (shard.unlink key entry).lruTail = (order.erase entry).getLast? := by
  have member : entry ∈ order := linked.held.mem_iff.mpr (mem_values.mpr ⟨key, found⟩)
  obtain ⟨front, back, rfl, erased⟩ := linked.split member
  rw [erased]
  have outside : entry ∉ front ++ back := by
    rw [List.mem_append]
    exact not_or.mpr ⟨linked.notMem_front, linked.notMem_back⟩
  have tailEq : (shard.unlink key entry).lruTail = (front ++ back).getLast? := by
    change (if redirect shard.next (shard.prev entry) (shard.next entry) entry = none then
      redirect shard.prev (redirect shard.next (shard.prev entry) (shard.next entry) entry)
        (shard.prev entry) entry else shard.lruTail) = _
    rw [linked.next_redirected, linked.prev_redirected, tail, tail_bypass]
  have headEq : (shard.unlink key entry).lruHead = (front ++ back).head? := by
    change (if shard.prev entry = none then
      redirect shard.next (shard.prev entry) (shard.next entry) entry else
        shard.lruHead) = _
    rw [linked.next_redirected, linked.prev_eq, linked.head, head_bypass]
  refine ⟨⟨?_, ?_, headEq, ?_, ?_⟩, tailEq⟩
  · exact chain_update outside none linked.forward_bypass
  · change Chain (Function.update (redirect shard.prev
      (redirect shard.next (shard.prev entry) (shard.next entry) entry)
      (shard.prev entry)) entry none) _
    rw [linked.next_redirected]
    exact chain_update (mt List.mem_reverse.mp outside) none linked.backward_bypass
  · exact linked.nodup.sublist (List.Sublist.append_left (List.sublist_cons_self _ _) _)
  · have remaining : (entry :: (front ++ back)).Perm
        (entry :: values (shard.data.erase key)) :=
      List.perm_middle.symm.trans (linked.held.trans (values_erase_perm found))
    exact remaining.cons_inv

/-- `moveToFront` of an entry in the list brings it to the front. -/
theorem moveToFront (linked : Linked shard order)
    (tail : shard.lruTail = order.getLast?) (member : entry ∈ order) :
    Linked (shard.moveToFront entry) (entry :: order.erase entry) ∧
      (shard.moveToFront entry).lruTail = (entry :: order.erase entry).getLast? := by
  obtain ⟨front, back, rfl, erased⟩ := linked.split member
  rw [erased]
  have outside : entry ∉ front ++ back := by
    rw [List.mem_append]
    exact not_or.mpr ⟨linked.notMem_front, linked.notMem_back⟩
  cases front with
  | nil =>
    have already : shard.lruHead = some entry := linked.head
    rw [Shard.moveToFront, if_pos already]
    exact ⟨linked, tail⟩
  | cons first rest =>
    have notFirst : shard.lruHead ≠ some entry := by
      rw [linked.head]
      intro same
      rw [List.cons_append, List.head?_cons, Option.some.injEq] at same
      exact linked.notMem_front (same ▸ List.mem_cons_self)
    have headEq : shard.lruHead = (first :: rest ++ back).head? := linked.head
    have tailEq : (if redirect shard.next (shard.prev entry) (shard.next entry) entry = none
        then redirect shard.prev
          (redirect shard.next (shard.prev entry) (shard.next entry) entry)
          (shard.prev entry) entry
        else shard.lruTail) = (first :: rest ++ back).getLast? := by
      rw [linked.next_redirected, linked.prev_redirected, tail, tail_bypass]
    rw [Shard.moveToFront, if_neg notFirst]
    dsimp only
    rw [tailEq, linked.next_redirected]
    refine ⟨⟨?_, ?_, rfl, ?_, ?_⟩, ?_⟩
    · rw [headEq]
      exact chain_cons outside linked.forward_bypass
    · rw [headEq, List.reverse_cons, ← List.getLast?_reverse]
      exact chain_snoc (mt List.mem_reverse.mp outside)
        (List.nodup_reverse.mpr (linked.nodup.sublist
          (List.Sublist.append_left (List.sublist_cons_self _ _) _)))
        linked.backward_bypass
    · exact List.nodup_cons.mpr ⟨outside, linked.nodup.sublist
        (List.Sublist.append_left (List.sublist_cons_self _ _) _)⟩
    · exact List.perm_middle.symm.trans linked.held
    · rw [if_neg (by simp), List.cons_append, List.getLast?_cons_cons]

/-- Inserting a new entry puts it in front of the chains and makes it the tail,
whatever the list was. -/
theorem insert_chains (linked : Linked shard order) (noNext : shard.next entry = none)
    (noPrev : shard.prev entry = none) (outside : entry ∉ order) :
    Chain (shard.insert entry).next (entry :: order) ∧
      Chain (shard.insert entry).prev (entry :: order).reverse ∧
      (shard.insert entry).lruHead = some entry ∧
      (shard.insert entry).lruTail = some entry ∧
      (shard.insert entry).data = shard.data.insert entry.entry.key entry := by
  have notFirst : shard.lruHead ≠ some entry := by
    rw [linked.head]
    exact fun isFirst => outside (List.mem_of_head? isFirst)
  rw [Shard.insert, Shard.moveToFront, if_neg notFirst]
  dsimp only
  rw [noPrev, noNext]
  simp only [redirect, noNext, noPrev, if_true]
  refine ⟨?_, ?_, trivial, trivial, trivial⟩
  · rw [linked.head]
    exact chain_cons outside linked.forward
  · rw [linked.head, List.reverse_cons, ← List.getLast?_reverse]
    exact chain_snoc (mt List.mem_reverse.mp outside)
      (List.nodup_reverse.mpr linked.nodup) linked.backward

/-- Inserting a new entry under a new key. -/
theorem insert (linked : Linked shard order) (noNext : shard.next entry = none)
    (noPrev : shard.prev entry = none) (outside : entry ∉ order)
    (absent : shard.data.lookup entry.entry.key = none) :
    Linked (shard.insert entry) (entry :: order) := by
  obtain ⟨forward, backward, head, -, dataEq⟩ :=
    linked.insert_chains noNext noPrev outside
  refine ⟨forward, backward, head, List.nodup_cons.mpr ⟨outside, linked.nodup⟩, ?_⟩
  rw [Shard.held, dataEq]
  exact (linked.held.cons entry).trans (values_insert_perm entry absent).symm

/-- The pointers an entry of the list has lead to entries of the list. -/
theorem neighbours (linked : Linked shard order) (member : entry ∈ order) :
    (∀ other, shard.next entry = some other → other ∈ order) ∧
      (∀ other, shard.prev entry = some other → other ∈ order) := by
  obtain ⟨front, back, rfl, -⟩ := linked.split member
  refine ⟨fun other nextEq => ?_, fun other prevEq => ?_⟩
  · rw [linked.next_eq] at nextEq
    exact List.mem_append_right _ (List.mem_cons_of_mem _ (List.mem_of_head? nextEq))
  · rw [linked.prev_eq] at prevEq
    exact List.mem_append_left _ (List.mem_of_getLast? prevEq)

/-- Cutting an entry out changes no pointer of an entry outside the list. -/
theorem bypass_outside {other : EntryPtr} (linked : Linked shard order)
    (member : entry ∈ order) (outside : other ∉ order) :
    redirect shard.next (shard.prev entry) (shard.next entry) other = shard.next other ∧
      redirect shard.prev
        (redirect shard.next (shard.prev entry) (shard.next entry) entry)
        (shard.prev entry) other = shard.prev other := by
  have around := linked.neighbours member
  refine ⟨redirect_of_ne fun prevEq => outside (around.2 other prevEq),
    redirect_of_ne fun nextEq => ?_⟩
  obtain ⟨front, back, rfl, -⟩ := linked.split member
  rw [linked.next_redirected, ← linked.next_eq] at nextEq
  exact outside (around.1 other nextEq)

/-- `deleteFromShard` changes no pointer of an entry outside the list. -/
theorem unlink_outside {other : EntryPtr} (linked : Linked shard order)
    (member : entry ∈ order) (outside : other ∉ order) (key : Bytes) :
    (shard.unlink key entry).next other = shard.next other ∧
      (shard.unlink key entry).prev other = shard.prev other := by
  have different : other ≠ entry := fun same => outside (same ▸ member)
  obtain ⟨nextEq, prevEq⟩ := linked.bypass_outside member outside
  exact ⟨(Function.update_of_ne different _ _).trans nextEq,
    (Function.update_of_ne different _ _).trans prevEq⟩

/-- `moveToFront` changes no pointer of an entry outside the list. -/
theorem moveToFront_outside {other : EntryPtr} (linked : Linked shard order)
    (member : entry ∈ order) (outside : other ∉ order) :
    (shard.moveToFront entry).next other = shard.next other ∧
      (shard.moveToFront entry).prev other = shard.prev other := by
  have different : other ≠ entry := fun same => outside (same ▸ member)
  have notHead : shard.lruHead ≠ some other := by
    rw [linked.head]
    exact fun isFirst => outside (List.mem_of_head? isFirst)
  obtain ⟨nextEq, prevEq⟩ := linked.bypass_outside member outside
  unfold Shard.moveToFront
  split
  · exact ⟨rfl, rfl⟩
  · exact ⟨(Function.update_of_ne different _ _).trans nextEq,
      (redirect_of_ne notHead).trans ((Function.update_of_ne different _ _).trans prevEq)⟩

/-- Inserting a new entry changes no pointer of another entry outside the
list. -/
theorem insert_outside {other : EntryPtr} (linked : Linked shard order)
    (noNext : shard.next entry = none) (noPrev : shard.prev entry = none)
    (different : other ≠ entry) (outside : other ∉ order) :
    (shard.insert entry).next other = shard.next other ∧
      (shard.insert entry).prev other = shard.prev other := by
  have notHead : shard.lruHead ≠ some other := by
    rw [linked.head]
    exact fun isFirst => outside (List.mem_of_head? isFirst)
  unfold Shard.insert Shard.moveToFront
  split
  · exact ⟨rfl, rfl⟩
  · dsimp only
    rw [noPrev, noNext]
    simp only [redirect, noNext]
    exact ⟨Function.update_of_ne different _ _,
      (redirect_of_ne notHead).trans (Function.update_of_ne different _ _)⟩

end Linked

/-! ## The exact list with its recency order -/

/-- Following `next` from the head visits exactly the entries of the shard,
each once, the most recently touched first; following `prev` from the last of
them goes back along the same walk; and the tail is that last entry. -/
def LruExact (touched : EntryPtr → Nat) (shard : Shard) : Prop :=
  ∃ order : List EntryPtr, Visits shard.next shard.lruHead order ∧ order.Nodup ∧
    order.Perm shard.held ∧
    order.Pairwise (fun earlier later => touched later < touched earlier) ∧
    Visits shard.prev order.getLast? order.reverse ∧ shard.lruTail = order.getLast?

/-- `evictLRU` takes out an entry the shard holds, one touched longest ago, and
leaves only an empty shard alone. -/
def EvictsLeastRecent (touched : EntryPtr → Nat) (shard : Shard) : Prop :=
  match shard.lruTail with
  | none => shard.held = []
  | some entry =>
    entry ∈ shard.held ∧ (∀ other ∈ shard.held, touched entry ≤ touched other) ∧
      shard.held.Perm (entry :: shard.evictLRU.held)

/-- What holds of one shard along a run: the exact list, keys at their place,
unlinked pointers at addresses not handed out yet, and stamps in the past. -/
structure ShardInv (touched : EntryPtr → Nat) (clock allocated : Nat)
    (place : Bytes → Prop) (shard : Shard) : Prop where
  ordered : ∃ order, Linked shard order ∧ shard.lruTail = order.getLast? ∧
    order.Pairwise (fun earlier later => touched later < touched earlier)
  keyed : ∀ key entry, shard.data.lookup key = some entry →
    entry.entry.key = key ∧ place key
  fresh : ∀ entry : EntryPtr, allocated ≤ entry.address →
    shard.next entry = none ∧ shard.prev entry = none ∧ entry ∉ shard.held
  stamped : ∀ entry ∈ shard.held, touched entry < clock

theorem shardInv_empty (touched : EntryPtr → Nat) (clock allocated : Nat)
    (place : Bytes → Prop) : ShardInv touched clock allocated place {} := by
  refine ⟨⟨[], ⟨chain_nil _, chain_nil _, rfl, List.nodup_nil, List.Perm.refl _⟩, rfl,
    List.Pairwise.nil⟩, ?_, ?_, ?_⟩
  · intro key entry found
    simp at found
  · intro entry _
    exact ⟨rfl, rfl, by simp [Shard.held]⟩
  · intro entry member
    simp [Shard.held] at member

namespace ShardInv

variable {touched : EntryPtr → Nat} {clock allocated : Nat} {place : Bytes → Prop}
  {shard : Shard}

theorem lookup_of_held (inv : ShardInv touched clock allocated place shard)
    {entry : EntryPtr} (member : entry ∈ shard.held) :
    shard.data.lookup entry.entry.key = some entry := by
  obtain ⟨key, found⟩ := mem_values.mp member
  rw [(inv.keyed key entry found).1, found]

theorem lruExact (inv : ShardInv touched clock allocated place shard) :
    LruExact touched shard := by
  obtain ⟨order, linked, tail, recency⟩ := inv.ordered
  refine ⟨order, visits_iff.mpr ⟨linked.head, linked.forward⟩, linked.nodup, linked.held,
    recency, visits_iff.mpr ⟨?_, linked.backward⟩, tail⟩
  rw [List.head?_reverse]

theorem evictLRU_eq_remove (inv : ShardInv touched clock allocated place shard)
    {entry : EntryPtr} (tail : shard.lruTail = some entry) :
    entry ∈ shard.held ∧ shard.evictLRU = shard.remove entry.entry.key := by
  obtain ⟨order, linked, tailEq, -⟩ := inv.ordered
  have member : entry ∈ shard.held :=
    linked.held.mem_iff.mp (List.mem_of_getLast? (tailEq ▸ tail))
  refine ⟨member, ?_⟩
  rw [Shard.evictLRU, tail, Shard.remove, inv.lookup_of_held member]

theorem evictsLeastRecent (inv : ShardInv touched clock allocated place shard) :
    EvictsLeastRecent touched shard := by
  obtain ⟨order, linked, tailEq, recency⟩ := inv.ordered
  unfold EvictsLeastRecent
  cases tail : shard.lruTail with
  | none =>
    rw [tail] at tailEq
    have nothing : order = [] := List.getLast?_eq_none_iff.mp tailEq.symm
    have heldNil := linked.held
    rw [nothing] at heldNil
    exact heldNil.symm.eq_nil
  | some entry =>
    obtain ⟨member, evicted⟩ := inv.evictLRU_eq_remove tail
    have found := inv.lookup_of_held member
    refine ⟨member, ?_, ?_⟩
    · intro other otherHeld
      rw [tail] at tailEq
      obtain ⟨init, initEq⟩ := List.getLast?_eq_some_iff.mp tailEq.symm
      have inOrder := linked.held.mem_iff.mpr otherHeld
      rw [initEq, List.mem_append, List.mem_singleton] at inOrder
      rw [initEq, List.pairwise_append] at recency
      rcases inOrder with earlier | rfl
      · exact le_of_lt (recency.2.2 other earlier entry List.mem_cons_self)
      · exact le_refl _
    · rw [evicted, Shard.remove, found]
      exact values_erase_perm found

/-- The invariant of a shard no step touches. -/
theorem mono (inv : ShardInv touched clock allocated place shard)
    {touchedNow : EntryPtr → Nat} {clockNow allocatedNow : Nat}
    (sameStamps : ∀ entry ∈ shard.held, touchedNow entry = touched entry)
    (later : clock ≤ clockNow) (more : allocated ≤ allocatedNow) :
    ShardInv touchedNow clockNow allocatedNow place shard := by
  obtain ⟨order, linked, tail, recency⟩ := inv.ordered
  refine ⟨⟨order, linked, tail, ?_⟩, inv.keyed, ?_, ?_⟩
  · refine recency.imp_of_mem fun {earlier latter} earlierMem latterMem less => ?_
    rw [sameStamps earlier (linked.held.mem_iff.mp earlierMem),
      sameStamps latter (linked.held.mem_iff.mp latterMem)]
    exact less
  · exact fun entry bound => inv.fresh entry (le_trans more bound)
  · intro entry member
    rw [sameStamps entry member]
    exact lt_of_lt_of_le (inv.stamped entry member) later

theorem remove (inv : ShardInv touched clock allocated place shard) (key : Bytes) :
    ShardInv touched clock allocated place (shard.remove key) := by
  unfold Shard.remove
  cases found : shard.data.lookup key with
  | none => exact inv
  | some entry =>
    obtain ⟨order, linked, tail, recency⟩ := inv.ordered
    obtain ⟨linkedNow, tailNow⟩ := linked.unlink tail found
    have inOrder : entry ∈ order :=
      linked.held.mem_iff.mpr (mem_values.mpr ⟨key, found⟩)
    have stillHeld : ∀ other ∈ (shard.unlink key entry).held, other ∈ shard.held := by
      intro other member
      exact linked.held.mem_iff.mp
        (List.mem_of_mem_erase (linkedNow.held.mem_iff.mpr member))
    refine ⟨⟨order.erase entry, linkedNow, tailNow, recency.sublist List.erase_sublist⟩,
      ?_, ?_, fun other member => inv.stamped other (stillHeld other member)⟩
    · intro otherKey other otherFound
      change (shard.data.erase key).lookup otherKey = some other at otherFound
      by_cases same : otherKey = key
      · rw [same, AList.lookup_erase] at otherFound
        cases otherFound
      · rw [AList.lookup_erase_ne same] at otherFound
        exact inv.keyed otherKey other otherFound
    · intro other bound
      obtain ⟨noNext, noPrev, notHeld⟩ := inv.fresh other bound
      have outside : other ∉ order := fun member => notHeld (linked.held.mem_iff.mp member)
      obtain ⟨nextEq, prevEq⟩ := linked.unlink_outside inOrder outside key
      exact ⟨nextEq.trans noNext, prevEq.trans noPrev,
        fun member => notHeld (stillHeld other member)⟩

theorem mem_held_remove (inv : ShardInv touched clock allocated place shard) {key : Bytes}
    {other : EntryPtr} :
    other ∈ (shard.remove key).held ↔ other ∈ shard.held ∧ other.entry.key ≠ key := by
  rw [Shard.held, Shard.remove_data, mem_values]
  constructor
  · rintro ⟨otherKey, found⟩
    have different : otherKey ≠ key := by
      rintro rfl
      rw [AList.lookup_erase] at found
      cases found
    rw [AList.lookup_erase_ne different] at found
    refine ⟨mem_values.mpr ⟨otherKey, found⟩, ?_⟩
    rwa [(inv.keyed otherKey other found).1]
  · rintro ⟨member, different⟩
    refine ⟨other.entry.key, ?_⟩
    rw [AList.lookup_erase_ne different, inv.lookup_of_held member]

theorem evictLRU (inv : ShardInv touched clock allocated place shard) :
    ShardInv touched clock allocated place shard.evictLRU := by
  cases tail : shard.lruTail with
  | none =>
    rw [Shard.evictLRU, tail]
    exact inv
  | some entry =>
    rw [(inv.evictLRU_eq_remove tail).2]
    exact inv.remove entry.entry.key

/-- A promoted entry moves to the front with the newest stamp. -/
theorem promote (inv : ShardInv touched clock allocated place shard) {key : Bytes}
    {entry : EntryPtr} (found : shard.data.lookup key = some entry) :
    ShardInv (Function.update touched entry clock) (clock + 1) allocated place
      (shard.promote key) := by
  obtain ⟨order, linked, tail, recency⟩ := inv.ordered
  have inOrder : entry ∈ order := linked.held.mem_iff.mpr (mem_values.mpr ⟨key, found⟩)
  obtain ⟨linkedNow, tailNow⟩ := linked.moveToFront tail inOrder
  have dataEq : (shard.moveToFront entry).data = shard.data := by
    unfold Shard.moveToFront
    split <;> rfl
  have heldEq : (shard.moveToFront entry).held = shard.held := by
    rw [Shard.held, dataEq, Shard.held]
  have different : ∀ other ∈ order.erase entry, other ≠ entry := by
    rintro other member rfl
    exact linkedNow.nodup.notMem member
  rw [Shard.promote, found]
  refine ⟨⟨entry :: order.erase entry, linkedNow, tailNow, ?_⟩, ?_, ?_, ?_⟩
  · refine List.pairwise_cons.mpr ⟨?_, ?_⟩
    · intro other member
      rw [Function.update_self, Function.update_of_ne (different other member)]
      exact inv.stamped other (linked.held.mem_iff.mp (List.mem_of_mem_erase member))
    · refine (recency.sublist List.erase_sublist).imp_of_mem
        fun {earlier latter} earlierMem latterMem less => ?_
      rw [Function.update_of_ne (different earlier earlierMem),
        Function.update_of_ne (different latter latterMem)]
      exact less
  · intro otherKey other otherFound
    exact inv.keyed otherKey other (by rwa [dataEq] at otherFound)
  · intro other bound
    obtain ⟨noNext, noPrev, notHeld⟩ := inv.fresh other bound
    have outside : other ∉ order := fun member => notHeld (linked.held.mem_iff.mp member)
    obtain ⟨nextEq, prevEq⟩ := linked.moveToFront_outside inOrder outside
    exact ⟨nextEq.trans noNext, prevEq.trans noPrev, by rwa [heldEq]⟩
  · intro other member
    rw [heldEq] at member
    by_cases same : other = entry
    · rw [same, Function.update_self]
      exact Nat.lt_succ_self clock
    · rw [Function.update_of_ne same]
      exact Nat.lt_succ_of_lt (inv.stamped other member)

/-- A new entry in an empty shard. -/
theorem insert (inv : ShardInv touched clock allocated place shard) (entry : Entry)
    (alone : shard.held = []) (placed : place entry.key) :
    ShardInv (Function.update touched ⟨allocated, entry⟩ clock) (clock + 1) (allocated + 1)
      place (shard.insert ⟨allocated, entry⟩) := by
  obtain ⟨order, linked, -, -⟩ := inv.ordered
  obtain ⟨noNext, noPrev, -⟩ := inv.fresh ⟨allocated, entry⟩ (le_refl _)
  have nothing : order = [] := by
    have heldNil := linked.held
    rw [alone] at heldNil
    exact heldNil.eq_nil
  subst nothing
  have absent : ∀ key, shard.data.lookup key = none := by
    intro key
    cases found : shard.data.lookup key with
    | none => rfl
    | some other =>
      have member := mem_values.mpr ⟨key, found⟩
      change other ∈ shard.held at member
      rw [alone] at member
      cases member
  obtain ⟨-, -, -, tailNow, dataEq⟩ :=
    linked.insert_chains noNext noPrev (List.not_mem_nil)
  have linkedNow := linked.insert noNext noPrev (List.not_mem_nil) (absent entry.key)
  have heldNow : ∀ other, other ∈ (shard.insert ⟨allocated, entry⟩).held →
      other = ⟨allocated, entry⟩ := by
    intro other member
    exact List.mem_singleton.mp (linkedNow.held.mem_iff.mpr member)
  refine ⟨⟨[⟨allocated, entry⟩], linkedNow, tailNow, List.pairwise_singleton _ _⟩, ?_, ?_, ?_⟩
  · intro key other found
    rw [dataEq] at found
    by_cases same : key = entry.key
    · subst same
      rw [AList.lookup_insert, Option.some.injEq] at found
      exact ⟨by rw [← found], placed⟩
    · rw [AList.lookup_insert_ne same, absent key] at found
      cases found
  · intro other bound
    obtain ⟨otherNext, otherPrev, -⟩ := inv.fresh other (Nat.le_of_succ_le bound)
    have different : other ≠ ⟨allocated, entry⟩ := by
      rintro rfl
      exact Nat.not_succ_le_self allocated bound
    obtain ⟨nextEq, prevEq⟩ :=
      linked.insert_outside noNext noPrev different (List.not_mem_nil)
    exact ⟨nextEq.trans otherNext, prevEq.trans otherPrev,
      fun member => different (heldNow other member)⟩
  · intro other member
    rw [heldNow other member, Function.update_self]
    exact Nat.lt_succ_self clock

/-- A new entry in a shard that holds another one becomes the tail of a list it
does not end. -/
theorem not_lruExact_insert (inv : ShardInv touched clock allocated place shard)
    {entry : Entry} (others : shard.held ≠ []) (stamps : EntryPtr → Nat) :
    ¬ LruExact stamps (shard.insert ⟨allocated, entry⟩) := by
  obtain ⟨order, linked, -, -⟩ := inv.ordered
  obtain ⟨noNext, noPrev, notHeld⟩ := inv.fresh ⟨allocated, entry⟩ (le_refl _)
  have outside : (⟨allocated, entry⟩ : EntryPtr) ∉ order :=
    fun member => notHeld (linked.held.mem_iff.mp member)
  obtain ⟨forward, -, head, tail, -⟩ := linked.insert_chains noNext noPrev outside
  rintro ⟨walk, visits, -, -, -, -, tailEq⟩
  have walkEq : walk = ⟨allocated, entry⟩ :: order :=
    visits_unique visits (visits_iff.mpr ⟨head, forward⟩)
  have notEmpty : order ≠ [] := by
    rintro rfl
    exact others linked.held.nil_eq.symm
  rw [walkEq, tail, List.getLast?_cons_of_ne_nil notEmpty] at tailEq
  exact outside (List.mem_of_getLast? tailEq.symm)

end ShardInv

/-! ## Sections act on one shard -/

/-- The shard a section locks. -/
def Section.index (memory : Memory) : Section → Nat
  | .put entry => memory.shardIndex entry.key
  | .load entry => memory.shardIndex entry.key
  | .remove index _ => index
  | .promote key => memory.shardIndex key
  | .evict index => index

/-- What a section does to the shard it locks. -/
def Section.change (memory : Memory) : Section → Shard → Shard
  | .put entry, shard => (shard.remove entry.key).insert ⟨memory.allocated, entry⟩
  | .load entry, shard => shard.insert ⟨memory.allocated, entry⟩
  | .remove _ key, shard => shard.remove key
  | .promote key, shard => shard.promote key
  | .evict _, shard => shard.evictLRU

/-- The entry a section inserts or promotes. -/
def Section.touches (memory : Memory) : Section → Option EntryPtr
  | .put entry => some ⟨memory.allocated, entry⟩
  | .load entry => some ⟨memory.allocated, entry⟩
  | .promote key => memory.find key
  | .remove _ _ => none
  | .evict _ => none

theorem modify_congr {shards : List Shard} {index : Nat} {first second : Shard → Shard}
    (agree : ∀ shard, shards[index]? = some shard → first shard = second shard) :
    shards.modify index first = shards.modify index second := by
  apply List.ext_getElem?
  intro position
  rw [List.getElem?_modify, List.getElem?_modify]
  cases found : shards[position]? with
  | none => rfl
  | some shard =>
    by_cases same : index = position
    · subst same
      simp [agree shard found]
    · simp [same]

theorem modify_id (shards : List Shard) (index : Nat) :
    shards.modify index (fun shard => shard) = shards := by
  apply List.ext_getElem?
  intro position
  rw [List.getElem?_modify]
  cases shards[position]? <;> simp

namespace Memory

variable {memory : Memory}

theorem getShard_of_getElem? {key : Bytes} {shard : Shard}
    (found : memory.shards[memory.shardIndex key]? = some shard) :
    memory.getShard key = shard := by
  rw [getShard, found, Option.getD_some]

/-- A shard with entries is one of the shards. -/
theorem shard_of_held {key : Bytes} {entry : EntryPtr}
    (held : entry ∈ (memory.getShard key).held) :
    ∃ shard, memory.shards[memory.shardIndex key]? = some shard ∧ entry ∈ shard.held := by
  cases found : memory.shards[memory.shardIndex key]? with
  | none =>
    rw [getShard, found] at held
    simp [Shard.held] at held
  | some shard => exact ⟨shard, rfl, by rwa [getShard_of_getElem? found] at held⟩

theorem removeAt_shards (memory : Memory) (index : Nat) (key : Bytes) :
    (memory.removeAt index key).shards = memory.shards.modify index (·.remove key) := by
  unfold removeAt
  cases found : (memory.shards[index]?).bind (·.data.lookup key) with
  | none =>
    refine (modify_id memory.shards index).symm.trans (modify_congr ?_)
    intro shard shardEq
    rw [shardEq, Option.bind_some] at found
    rw [Shard.remove, found]
  | some entry =>
    refine modify_congr ?_
    intro shard shardEq
    rw [shardEq, Option.bind_some] at found
    rw [Shard.remove, found]

theorem evict_shards (memory : Memory) (index : Nat) :
    (memory.evict index).shards = memory.shards.modify index (·.evictLRU) := by
  unfold evict
  cases tail : (memory.shards[index]?).bind (·.lruTail) with
  | none =>
    dsimp only
    refine (modify_id memory.shards index).symm.trans (modify_congr ?_)
    intro shard shardEq
    rw [shardEq, Option.bind_some] at tail
    rw [Shard.evictLRU, tail]
  | some entry =>
    refine modify_congr ?_
    intro shard shardEq
    rw [shardEq, Option.bind_some] at tail
    rw [Shard.evictLRU, tail]

@[simp] theorem removeAt_allocated (memory : Memory) (index : Nat) (key : Bytes) :
    (memory.removeAt index key).allocated = memory.allocated := by
  unfold removeAt
  split <;> rfl

theorem removeAt_shardIndex (memory : Memory) (index : Nat) (key other : Bytes) :
    (memory.removeAt index key).shardIndex other = memory.shardIndex other := by
  rw [shardIndex, removeAt_shards, List.length_modify, shardIndex]

theorem put_shards (memory : Memory) (entry : Entry) :
    (memory.put entry).shards = memory.shards.modify (memory.shardIndex entry.key)
      (fun shard => (shard.remove entry.key).insert ⟨memory.allocated, entry⟩) := by
  have loaded : (memory.put entry).shards =
      (memory.remove entry.key).shards.modify
        ((memory.remove entry.key).shardIndex entry.key)
        (·.insert ⟨(memory.remove entry.key).allocated, entry⟩) := rfl
  rw [loaded, remove, removeAt_shardIndex, removeAt_shards, removeAt_allocated,
    List.modify_modify_eq]
  rfl

/-- A section changes the shard it locks and no other. -/
theorem apply_shards (memory : Memory) (part : Section) :
    (memory.apply part).shards =
      memory.shards.modify (part.index memory) (part.change memory) := by
  cases part with
  | put entry => exact put_shards memory entry
  | load entry => rfl
  | remove index key => exact removeAt_shards memory index key
  | promote key => rfl
  | evict index => exact evict_shards memory index

theorem apply_shardIndex (memory : Memory) (part : Section) (key : Bytes) :
    (memory.apply part).shardIndex key = memory.shardIndex key := by
  rw [shardIndex, apply_shards, List.length_modify, shardIndex]

theorem le_apply_allocated (memory : Memory) (part : Section) :
    memory.allocated ≤ (memory.apply part).allocated := by
  cases part with
  | put entry =>
    change memory.allocated ≤ (memory.remove entry.key).allocated + 1
    rw [remove, removeAt_allocated]
    exact Nat.le_succ _
  | load entry => exact Nat.le_succ _
  | remove index key => exact le_of_eq (removeAt_allocated memory index key).symm
  | promote key => exact le_refl _
  | evict index =>
    change memory.allocated ≤ (memory.evict index).allocated
    unfold evict
    split <;> exact le_refl _

end Memory

/-! ## Runs of sections -/

/-- The memory with the step at which each entry was last inserted or
promoted. -/
structure Tracked where
  memory : Memory
  touched : EntryPtr → Nat
  clock : Nat

/-- One section, stamping the entry it inserts or promotes. -/
def Tracked.step (state : Tracked) (part : Section) : Tracked where
  memory := state.memory.apply part
  touched :=
    match part.touches state.memory with
    | some entry => Function.update state.touched entry state.clock
    | none => state.touched
  clock := state.clock + 1

/-- The engine as a machine of locked sections. -/
def sectionMachine : Machine Tracked Section Unit where
  step := fun state part => some (state.step part, ())

/-- The start of a run: the shards as allocated. -/
def Tracked.new (shardCount : Nat) : Tracked where
  memory := newMemory shardCount
  touched := fun _ => 0
  clock := 0

/-- Every shard has an exact list, and its eviction takes the least recently
used entry. -/
def Tracked.AllExact (state : Tracked) : Prop :=
  ∀ shard ∈ state.memory.shards,
    LruExact state.touched shard ∧ EvictsLeastRecent state.touched shard

/-- An insertion goes into a shard that holds no other entry: for `put` none
but the one it replaces, for `load` none at all. -/
def Solitary (state : Tracked) : Section → Prop
  | .put entry =>
    ∀ other ∈ (state.memory.getShard entry.key).held, other.entry.key = entry.key
  | .load entry => (state.memory.getShard entry.key).held = []
  | .remove _ _ => True
  | .promote _ => True
  | .evict _ => True

/-- What holds along a run whose insertions are all solitary. -/
def Tracked.Inv (state : Tracked) : Prop :=
  ∀ index shard, state.memory.shards[index]? = some shard →
    ShardInv state.touched state.clock state.memory.allocated
      (fun key => state.memory.shardIndex key = index) shard

namespace Tracked

variable {state : Tracked}

theorem inv_new (shardCount : Nat) : (new shardCount).Inv := by
  intro index shard found
  have isEmpty : shard = {} := by
    change (List.replicate shardCount ({} : Shard))[index]? = some shard at found
    rw [List.getElem?_replicate] at found
    split at found
    · exact (Option.some.inj found).symm
    · cases found
  rw [isEmpty]
  exact shardInv_empty _ _ _ _

theorem Inv.allExact (inv : state.Inv) : state.AllExact := by
  intro shard member
  obtain ⟨index, found⟩ := List.getElem?_of_mem member
  exact ⟨(inv index shard found).lruExact, (inv index shard found).evictsLeastRecent⟩

/-- The shard a section leaves alone keeps its stamps: what the section touches
is new or lies in the locked shard. -/
theorem Inv.untouched (inv : state.Inv) {part : Section} {index : Nat} {shard : Shard}
    (found : state.memory.shards[index]? = some shard)
    (other : part.index state.memory ≠ index) :
    ∀ entry ∈ shard.held, (state.step part).touched entry = state.touched entry := by
  intro entry member
  have shardInv := inv index shard found
  have allocatedBefore : entry.address ≠ state.memory.allocated := by
    intro same
    exact (shardInv.fresh entry (le_of_eq same.symm)).2.2 member
  have isOld : ∀ record : Entry, entry ≠ ⟨state.memory.allocated, record⟩ := by
    rintro record rfl
    exact allocatedBefore rfl
  cases part with
  | put record | load record => exact Function.update_of_ne (isOld record) _ _
  | remove position key => rfl
  | evict position => rfl
  | promote key =>
    change (match state.memory.find key with
      | some entry => Function.update state.touched entry state.clock
      | none => state.touched) entry = state.touched entry
    cases promoted : state.memory.find key with
    | none => rfl
    | some target =>
      refine Function.update_of_ne ?_ _ _
      rintro rfl
      -- the promoted entry has its key's place, which is the locked shard
      cases lockedEq : state.memory.shards[state.memory.shardIndex key]? with
      | none =>
        rw [Memory.find, Memory.getShard, lockedEq] at promoted
        simp at promoted
      | some locked =>
        rw [Memory.find, Memory.getShard_of_getElem? lockedEq] at promoted
        have keyEq := ((inv _ locked lockedEq).keyed key entry promoted).1
        have placed := (shardInv.keyed _ _ (shardInv.lookup_of_held member)).2
        rw [keyEq] at placed
        exact other placed

/-- The shard a section locks, after a step that meets the condition. -/
theorem Inv.locked (inv : state.Inv) {part : Section} {shard : Shard}
    (found : state.memory.shards[part.index state.memory]? = some shard)
    (solitary : Solitary state part) :
    ShardInv (state.step part).touched (state.step part).clock
      (state.step part).memory.allocated
      (fun key => state.memory.shardIndex key = part.index state.memory)
      (part.change state.memory shard) := by
  have shardInv := inv _ shard found
  cases part with
  | put entry =>
    have lockedEq := Memory.getShard_of_getElem? found
    have alone : (shard.remove entry.key).held = [] := by
      rw [List.eq_nil_iff_forall_not_mem]
      intro other member
      obtain ⟨stillHeld, different⟩ := shardInv.mem_held_remove.mp member
      exact different (solitary other (by rw [lockedEq]; exact stillHeld))
    have inserted := (shardInv.remove entry.key).insert entry alone rfl
    change ShardInv _ _ ((state.memory.remove entry.key).allocated + 1) _ _
    rw [Memory.remove, Memory.removeAt_allocated]
    exact inserted
  | load entry =>
    have lockedEq := Memory.getShard_of_getElem? found
    have alone : shard.held = [] := by
      rw [← lockedEq]
      exact solitary
    exact shardInv.insert entry alone rfl
  | remove index key =>
    have removed := shardInv.remove key
    change ShardInv _ _ (state.memory.removeAt index key).allocated _ _
    rw [Memory.removeAt_allocated]
    exact removed.mono (fun _ _ => rfl) (Nat.le_succ _) (le_refl _)
  | promote key =>
    have lockedEq := Memory.getShard_of_getElem? found
    change ShardInv (match state.memory.find key with
      | some entry => Function.update state.touched entry state.clock
      | none => state.touched) _ _ _ (shard.promote key)
    rw [Memory.find, lockedEq]
    cases promoted : shard.data.lookup key with
    | none =>
      rw [Shard.promote, promoted]
      exact shardInv.mono (fun _ _ => rfl) (Nat.le_succ _) (le_refl _)
    | some entry => exact shardInv.promote promoted
  | evict index =>
    exact shardInv.evictLRU.mono (fun _ _ => rfl) (Nat.le_succ _)
      (Memory.le_apply_allocated state.memory (.evict index))

/-- One step: a section that meets the condition keeps the invariant. -/
theorem Inv.step (inv : state.Inv) {part : Section} (solitary : Solitary state part) :
    (state.step part).Inv := by
  intro index shard found
  change (state.memory.apply part).shards[index]? = some shard at found
  rw [Memory.apply_shards, List.getElem?_modify] at found
  have place : (fun key => (state.step part).memory.shardIndex key = index) =
      fun key => state.memory.shardIndex key = index := by
    funext key
    exact congrArg (· = index) (Memory.apply_shardIndex state.memory part key)
  rw [place]
  cases before : state.memory.shards[index]? with
  | none => simp [before] at found
  | some old =>
    by_cases same : part.index state.memory = index
    · subst same
      simp only [before, Option.map_eq_map, Option.map_some, if_true,
        Option.some.injEq] at found
      rw [← found]
      exact inv.locked before solitary
    · simp only [before, Option.map_eq_map, Option.map_some, if_neg same,
        Option.some.injEq] at found
      rw [← found]
      exact (inv index old before).mono (inv.untouched before same) (Nat.le_succ _)
        (Memory.le_apply_allocated state.memory part)

/-- One step: an insertion beside other entries leaves the list inexact. -/
theorem Inv.step_breaks (inv : state.Inv) {part : Section}
    (crowded : ¬ Solitary state part) : ¬ (state.step part).AllExact := by
  intro exactNow
  have insertedExact : ∀ (entry : Entry) (shard : Shard),
      (state.step part).memory.shards[state.memory.shardIndex entry.key]? =
        some (shard.insert ⟨state.memory.allocated, entry⟩) →
      LruExact (state.step part).touched (shard.insert ⟨state.memory.allocated, entry⟩) :=
    fun entry shard found => (exactNow _ (List.mem_of_getElem? found)).1
  cases part with
  | put entry =>
    simp only [Solitary, not_forall] at crowded
    obtain ⟨other, otherHeld, different⟩ := crowded
    obtain ⟨shard, found, held⟩ := Memory.shard_of_held otherHeld
    have shardInv := inv _ shard found
    have others : (shard.remove entry.key).held ≠ [] :=
      List.ne_nil_of_mem (shardInv.mem_held_remove.mpr ⟨held, different⟩)
    refine (shardInv.remove entry.key).not_lruExact_insert others _
      (insertedExact entry (shard.remove entry.key) ?_)
    change (state.memory.apply (.put entry)).shards[_]? = _
    rw [Memory.apply_shards, List.getElem?_modify, found]
    simp [Section.index, Section.change]
  | load entry =>
    simp only [Solitary] at crowded
    obtain ⟨other, otherHeld⟩ := List.exists_mem_of_ne_nil _ crowded
    obtain ⟨shard, found, held⟩ := Memory.shard_of_held otherHeld
    refine (inv _ shard found).not_lruExact_insert (List.ne_nil_of_mem held) _
      (insertedExact entry shard ?_)
    change (state.memory.apply (.load entry)).shards[_]? = _
    rw [Memory.apply_shards, List.getElem?_modify, found]
    simp [Section.index, Section.change]
  | remove index key | promote key | evict index => exact crowded trivial

end Tracked

/-- In a run of sections from the empty shards, every state has exact recency
lists, and evicts the least recently used entry, exactly if every insertion of
the run goes into a shard that holds no other entry. -/
theorem lruExact_iff_solitary (shardCount : Nat) (parts : List Section) :
    (∀ state, sectionMachine.Reaches (Tracked.new shardCount) parts state →
      state.AllExact) ↔
      sectionMachine.Meets Solitary (Tracked.new shardCount) parts := by
  refine Machine.holds_iff_meets ?_ ?_ ?_ ?_ (Tracked.inv_new shardCount)
  · intro state part
    exact ⟨state.step part, (), rfl⟩
  · exact fun state inv => inv.allExact
  · intro state part next out inv solitary stepEq
    have nextEq : state.step part = next := congrArg Prod.fst (Option.some.inj stepEq)
    exact nextEq ▸ inv.step solitary
  · intro state part next out inv crowded stepEq
    have nextEq : state.step part = next := congrArg Prod.fst (Option.some.inj stepEq)
    exact nextEq ▸ inv.step_breaks crowded

/-- Two entries of one shard. -/
def firstEntry : Entry := { key := ascii "a", value := [], size := 65, version := 1 }

@[inherit_doc firstEntry]
def secondEntry : Entry := { key := ascii "b", value := [], size := 65, version := 2 }

/-- The single shard after two sets. -/
def twoEntries : Tracked :=
  ((Tracked.new 1).step (.put firstEntry)).step (.put secondEntry)

/-- After two sets in one shard the walk from the head ends at the first entry,
the tail is the second one, and eviction takes the entry used last. -/
theorem lru_two_entries :
    sectionMachine.Reaches (Tracked.new 1) [.put firstEntry, .put secondEntry] twoEntries ∧
      (∀ shard ∈ twoEntries.memory.shards,
        Visits shard.next shard.lruHead [⟨1, secondEntry⟩, ⟨0, firstEntry⟩] ∧
        shard.lruTail = some ⟨1, secondEntry⟩ ∧
        shard.evictLRU.held = [⟨0, firstEntry⟩]) ∧
      twoEntries.memory.shards.length = 1 ∧ ¬ twoEntries.AllExact := by
  have oneShard : twoEntries.memory.shards.length = 1 := by decide +kernel
  have state : ∀ shard ∈ twoEntries.memory.shards,
      Visits shard.next shard.lruHead [⟨1, secondEntry⟩, ⟨0, firstEntry⟩] ∧
      shard.lruTail = some ⟨1, secondEntry⟩ ∧
      shard.evictLRU.held = [⟨0, firstEntry⟩] := by decide +kernel
  refine ⟨⟨[.put firstEntry, .put secondEntry], List.prefix_refl _, rfl⟩, state, oneShard, ?_⟩
  intro allExact
  obtain ⟨shard, onlyShard⟩ := List.length_eq_one_iff.mp oneShard
  have member : shard ∈ twoEntries.memory.shards := onlyShard ▸ List.mem_cons_self
  obtain ⟨visits, tail, -⟩ := state shard member
  obtain ⟨walk, walkVisits, -, -, -, -, tailEq⟩ := (allExact shard member).1
  rw [visits_unique walkVisits visits, tail] at tailEq
  exact absurd tailEq (by decide)

end Plumego.KvEngine
