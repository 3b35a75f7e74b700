/-
Module: Plumego.Proofs.HashRing
Purpose: The hash ring after any sequence of calls: the sorted index, the owners
  of the hashes, and how little one call changes the lookups.
Trusted boundary: none
Main exports: HashRing.Consistent, HashRing.Unchanged, CallEffect,
  ring_consistent
-/
import Plumego.Distributed.HashRing
import Plumego.Lib.Circle

namespace Plumego.Distributed

open Go Lib

namespace HashRing

/-! ## What holds of the ring -/

/-- The maps of the ring agree: the sorted hashes are the keys of `ring` in
increasing order, and the list of each node has the hashes that it owns, as many
as its weight asks for. -/
structure Consistent (r : HashRing) : Prop where
  increasing : r.sortedHashes.Pairwise (· < ·)
  mem_sorted : ∀ hash, hash ∈ r.sortedHashes ↔ (r.ring.lookup hash).isSome
  owner : ∀ hash node, r.ring.lookup hash = some node → r.nodes.lookup node.id = some node
  named : ∀ id node, r.nodes.lookup id = some node → node.id = id
  listed : ∀ id, (r.nodeHashes.lookup id).isSome ↔ (r.nodes.lookup id).isSome
  owned : ∀ id hashes node, r.nodeHashes.lookup id = some hashes →
    r.nodes.lookup id = some node →
    hashes.Nodup ∧ (hashes.length : Int) = r.virtualNodes * max node.weight 1 ∧
      ∀ hash, hash ∈ hashes ↔ r.ring.lookup hash = some node

/-- The maps of the ring are as before. -/
structure Unchanged (before after : HashRing) : Prop where
  ring : after.ring = before.ring
  sortedHashes : after.sortedHashes = before.sortedHashes
  nodes : after.nodes = before.nodes
  nodeHashes : after.nodeHashes = before.nodeHashes

/-- The configuration is as before. -/
structure SameSetup (before after : HashRing) : Prop where
  virtualNodes : after.virtualNodes = before.virtualNodes
  hashFunc : after.hashFunc = before.hashFunc

theorem new_consistent (config : Option RingConfig) : (new config).Consistent where
  increasing := List.Pairwise.nil
  mem_sorted := by simp [new]
  owner := by simp [new]
  named := by simp [new]
  listed := by simp [new]
  owned := by simp [new]

/-! ## Sorted hashes -/

theorem mem_sortHashes {hashes : List Hash} {hash : Hash} :
    hash ∈ sortHashes hashes ↔ hash ∈ hashes :=
  List.mem_insertionSort _

theorem sortHashes_increasing {hashes : List Hash} (distinct : hashes.Nodup) :
    (sortHashes hashes).Pairwise (· < ·) := by
  have ordered : (sortHashes hashes).Pairwise (· ≤ ·) := List.pairwise_insertionSort _ _
  have different : (sortHashes hashes).Pairwise (· ≠ ·) :=
    (List.perm_insertionSort _ _).nodup_iff.mpr distinct
  exact ordered.imp₂ (fun _ _ atMost notEqual => lt_of_le_of_ne atMost notEqual) different

theorem mem_keys_iff {ring : AList (fun _ : Hash => CacheNode)} {hash : Hash} :
    hash ∈ ring.keys ↔ (ring.lookup hash).isSome := by
  rw [← AList.mem_keys, AList.lookup_isSome]

/-- Rebuilding the index of a ring whose index was right gives the same
index. -/
theorem Consistent.sortHashes_keys {r : HashRing} (consistent : r.Consistent) :
    sortHashes r.ring.keys = r.sortedHashes := by
  apply (sortHashes_increasing r.ring.keys_nodup).eq_of_mem_iff consistent.increasing
  intro hash
  rw [mem_sortHashes, mem_keys_iff, consistent.mem_sorted]

/-! ## Placement -/

/-- Probing changes the count of collisions only, and ends at a free hash. -/
theorem probe_spec (r : HashRing) (probes : Nat) (hash : Hash) :
    ∃ count result, r.probe probes hash = ({ r with collisions := count }, result) ∧
      ∀ found, result = .ok found → r.ring.lookup found = none := by
  induction probes generalizing r hash with
  | zero => exact ⟨r.collisions, .error errHashRingSaturated, rfl, by simp⟩
  | succ probes ih =>
    unfold probe
    split
    · obtain ⟨count, result, probed, free⟩ :=
        ih { r with collisions := (r.collisions + 1) % 2 ^ 64 } (hash + 1)
      exact ⟨count, result, probed, free⟩
    · next free =>
        refine ⟨r.collisions, .ok hash, rfl, ?_⟩
        intro found same
        cases same
        simpa using free

/-- The ring in the middle of `Add`: some hashes are placed, and taking them
back gives the ring at the start. -/
structure Placing (start now : HashRing) (node : CacheNode) (hashes : List Hash) : Prop where
  restores : hashes.foldl (fun ring hash => ring.erase hash) now.ring = start.ring
  lookup : ∀ hash, now.ring.lookup hash =
    if hash ∈ hashes then some node else start.ring.lookup hash
  fresh : ∀ hash ∈ hashes, start.ring.lookup hash = none
  distinct : hashes.Nodup
  sorted : now.sortedHashes = start.sortedHashes ++ hashes
  nodes : now.nodes = start.nodes
  nodeHashes : now.nodeHashes = start.nodeHashes
  setup : SameSetup start now

theorem Placing.begin (r : HashRing) (node : CacheNode) : Placing r r node [] where
  restores := rfl
  lookup := by simp
  fresh := by simp
  distinct := List.nodup_nil
  sorted := (List.append_nil _).symm
  nodes := rfl
  nodeHashes := rfl
  setup := ⟨rfl, rfl⟩

theorem foldl_erase_erase (ring : AList (fun _ : Hash => CacheNode)) (hashes : List Hash)
    (hash : Hash) :
    hashes.foldl (fun ring hash => ring.erase hash) (ring.erase hash) =
      (hashes.foldl (fun ring hash => ring.erase hash) ring).erase hash := by
  induction hashes generalizing ring with
  | nil => rfl
  | cons first rest ih =>
    rw [List.foldl_cons, List.foldl_cons, AList.erase_erase, ih]

theorem erase_insert_of_free {ring : AList (fun _ : Hash => CacheNode)} {hash : Hash}
    (node : CacheNode) (free : ring.lookup hash = none) :
    (ring.insert hash node).erase hash = ring := by
  have notMem : hash ∉ ring := AList.lookup_eq_none.mp free
  apply AList.ext
  change List.kerase hash (ring.insert hash node).entries = ring.entries
  rw [AList.entries_insert_of_notMem notMem]
  exact List.kerase_cons_eq rfl

/-- Placing one more free hash. -/
theorem Placing.place {start now : HashRing} {node : CacheNode} {hashes : List Hash}
    (placing : Placing start now node hashes) (count : Nat) {hash : Hash}
    (free : now.ring.lookup hash = none) :
    Placing start ({ now with collisions := count }.place node hash) node
      (hashes ++ [hash]) := by
  have notPlaced : hash ∉ hashes := by
    intro member
    rw [placing.lookup, if_pos member] at free
    cases free
  have startFree : start.ring.lookup hash = none := by
    rw [placing.lookup, if_neg notPlaced] at free
    exact free
  refine ⟨?_, ?_, ?_, ?_, ?_, placing.nodes, placing.nodeHashes,
    ⟨placing.setup.virtualNodes, placing.setup.hashFunc⟩⟩
  · calc (hashes ++ [hash]).foldl (fun ring hash => ring.erase hash)
          (now.ring.insert hash node)
        = (hashes.foldl (fun ring hash => ring.erase hash)
            (now.ring.insert hash node)).erase hash := by simp
      _ = hashes.foldl (fun ring hash => ring.erase hash)
            ((now.ring.insert hash node).erase hash) := (foldl_erase_erase _ _ _).symm
      _ = start.ring := by rw [erase_insert_of_free node free, placing.restores]
  · intro other
    change (now.ring.insert hash node).lookup other = _
    by_cases same : other = hash
    · subst same
      simp [AList.lookup_insert]
    · rw [AList.lookup_insert_ne same, placing.lookup]
      simp [same]
  · intro other member
    rcases List.mem_append.mp member with earlier | last
    · exact placing.fresh other earlier
    · rw [List.mem_singleton.mp last]
      exact startFree
  · exact List.Nodup.append placing.distinct (List.nodup_singleton hash)
      (List.disjoint_singleton.mpr notPlaced)
  · change now.sortedHashes ++ [hash] = start.sortedHashes ++ (hashes ++ [hash])
    rw [placing.sorted, List.append_assoc]

/-- What the loop of `Add` leaves: all virtual nodes placed, or the ring of the
start with a rebuilt index. -/
theorem placeAll_spec {start now : HashRing} {node : CacheNode} {hashes : List Hash}
    (vnodes : List Nat) (placing : Placing start now node hashes) :
    (∃ placed all, now.placeAll node hashes vnodes = (placed, .ok all) ∧
        Placing start placed node all ∧ all.length = hashes.length + vnodes.length) ∨
      ∃ failed failure, now.placeAll node hashes vnodes = (failed, .error failure) ∧
        failed.ring = start.ring ∧ failed.sortedHashes = sortHashes start.ring.keys ∧
        failed.nodes = start.nodes ∧ failed.nodeHashes = start.nodeHashes ∧
        SameSetup start failed := by
  induction vnodes generalizing now hashes with
  | nil => exact Or.inl ⟨now, hashes, rfl, placing, rfl⟩
  | cons vnode rest ih =>
    obtain ⟨count, result, probed, free⟩ := now.probe_spec maxVirtualNodeHashProbes
      (now.hashVirtualNode node.id vnode)
    have resolved : now.resolveVirtualNodeHash node.id vnode =
        ({ now with collisions := count }, result) := probed
    unfold placeAll
    rw [resolved]
    cases result with
    | error failure =>
      refine Or.inr ⟨_, failure, rfl, placing.restores, ?_, placing.nodes,
        placing.nodeHashes, placing.setup.virtualNodes, placing.setup.hashFunc⟩
      change sortHashes (AList.keys (hashes.foldl _ now.ring)) = _
      rw [placing.restores]
    | ok hash =>
      rcases ih (placing.place count (free hash rfl)) with
        ⟨placed, all, placedEq, whole, length⟩ | failed
      · refine Or.inl ⟨placed, all, placedEq, whole, ?_⟩
        rw [length, List.length_append, List.length_singleton, List.length_cons]
        omega
      · exact Or.inr failed

/-! ## The calls -/

theorem virtualNodeCount_eq {r : HashRing} {node : CacheNode} {count : Int}
    (counted : r.virtualNodeCount node = .ok count) :
    count = r.virtualNodes * max node.weight 1 ∧ 0 ≤ count := by
  unfold virtualNodeCount at counted
  have weightEq : (if node.weight ≤ 0 then 1 else node.weight) = max node.weight 1 := by
    split <;> omega
  simp only [weightEq] at counted
  split at counted
  · cases counted
  · next positive =>
      split at counted
      · cases counted
      · cases counted
        exact ⟨rfl, Int.mul_nonneg (by omega) (by omega)⟩

/-- What `Add` can do: fail and leave the maps as they were, or place the
virtual nodes of a new node and store it. -/
theorem add_cases {r : HashRing} (consistent : r.Consistent) (node : Option CacheNode) :
    (∃ failed failure, r.add node = (failed, some failure) ∧ Unchanged r failed ∧
        SameSetup r failed) ∨
      ∃ added count placed hashes, node = some added ∧ r.nodes.lookup added.id = none ∧
        r.virtualNodeCount added = .ok count ∧
        r.placeAll added [] (List.range count.toNat) = (placed, .ok hashes) ∧
        Placing r placed added hashes ∧
        (hashes.length : Int) = r.virtualNodes * max added.weight 1 ∧
        r.add node = (placed.store added hashes, none) := by
  have refused : ∀ failure, ∃ failed reason, ((r, some failure) : HashRing × Option GoError) =
      (failed, some reason) ∧ Unchanged r failed ∧ SameSetup r failed := fun failure =>
    ⟨r, failure, rfl, ⟨rfl, rfl, rfl, rfl⟩, ⟨rfl, rfl⟩⟩
  cases node with
  | none => exact Or.inl (refused errNodeNil)
  | some node =>
    simp only [add]
    split
    · exact Or.inl (refused errNodeIDEmpty)
    split
    · exact Or.inl (refused errNodeCacheNil)
    split
    · exact Or.inl (refused errNodeAlreadyExists)
    next absent =>
    cases counted : r.virtualNodeCount node with
    | error failure => exact Or.inl (refused failure)
    | ok count =>
      obtain ⟨countEq, nonnegative⟩ := virtualNodeCount_eq counted
      rcases placeAll_spec (List.range count.toNat) (Placing.begin r node) with
        ⟨placed, all, placedEq, placing, length⟩ |
        ⟨failed, failure, failedEq, ring, sorted, nodes, nodeHashes, setup⟩
      · refine Or.inr ⟨node, count, placed, all, rfl, by simpa using absent, counted,
          placedEq, placing, ?_, ?_⟩
        · rw [length, List.length_nil, List.length_range, ← countEq]
          omega
        · simp only [placedEq]
      · refine Or.inl ⟨failed, failure, ?_, ⟨ring, ?_, nodes, nodeHashes⟩, setup⟩
        · simp only [failedEq]
        · rw [sorted, consistent.sortHashes_keys]

/-- Storing a placed node keeps the ring consistent. -/
theorem Placing.store_consistent {r placed : HashRing} {node : CacheNode}
    {hashes : List Hash} (consistent : r.Consistent) (absent : r.nodes.lookup node.id = none)
    (placing : Placing r placed node hashes)
    (length : (hashes.length : Int) = r.virtualNodes * max node.weight 1) :
    (placed.store node hashes).Consistent := by
  have notSorted : ∀ hash ∈ hashes, hash ∉ r.sortedHashes := by
    intro hash member stored
    rw [consistent.mem_sorted, placing.fresh hash member] at stored
    cases stored
  have distinct : (r.sortedHashes ++ hashes).Nodup :=
    List.Nodup.append (consistent.increasing.imp ne_of_lt) placing.distinct
      fun hash stored member => notSorted hash member stored
  have notOwner : ∀ hash other, r.ring.lookup hash = some other → other.id ≠ node.id := by
    intro hash other found same
    have known := consistent.owner hash other found
    rw [same, absent] at known
    cases known
  constructor
  · change (sortHashes placed.sortedHashes).Pairwise (· < ·)
    rw [placing.sorted]
    exact sortHashes_increasing distinct
  · intro hash
    change hash ∈ sortHashes placed.sortedHashes ↔ (placed.ring.lookup hash).isSome
    rw [mem_sortHashes, placing.sorted, List.mem_append, consistent.mem_sorted, placing.lookup]
    split <;> simp_all
  · intro hash other found
    change placed.ring.lookup hash = some other at found
    change (placed.nodes.insert node.id node).lookup other.id = some other
    rw [placing.nodes]
    rw [placing.lookup] at found
    split at found
    · cases found
      exact AList.lookup_insert _
    · rw [AList.lookup_insert_ne (notOwner hash other found)]
      exact consistent.owner hash other found
  · intro id other found
    change (placed.nodes.insert node.id node).lookup id = some other at found
    rw [placing.nodes] at found
    by_cases same : id = node.id
    · subst same
      rw [AList.lookup_insert, Option.some.injEq] at found
      rw [found]
    · rw [AList.lookup_insert_ne same] at found
      exact consistent.named id other found
  · intro id
    change ((placed.nodeHashes.insert node.id hashes).lookup id).isSome ↔
      ((placed.nodes.insert node.id node).lookup id).isSome
    rw [placing.nodes, placing.nodeHashes]
    by_cases same : id = node.id
    · subst same
      simp [AList.lookup_insert]
    · rw [AList.lookup_insert_ne same, AList.lookup_insert_ne same]
      exact consistent.listed id
  · intro id list other listed known
    change (placed.nodeHashes.insert node.id hashes).lookup id = some list at listed
    change (placed.nodes.insert node.id node).lookup id = some other at known
    change list.Nodup ∧ (list.length : Int) = placed.virtualNodes * max other.weight 1 ∧
      ∀ hash, hash ∈ list ↔ placed.ring.lookup hash = some other
    rw [placing.setup.virtualNodes]
    rw [placing.nodeHashes] at listed
    rw [placing.nodes] at known
    by_cases same : id = node.id
    · subst same
      rw [AList.lookup_insert, Option.some.injEq] at listed known
      subst listed known
      refine ⟨placing.distinct, length, ?_⟩
      intro hash
      rw [placing.lookup]
      split
      · simp_all
      · next notMember =>
          simp only [notMember, false_iff]
          intro found
          exact notOwner hash node found rfl
    · rw [AList.lookup_insert_ne same] at listed known
      obtain ⟨listDistinct, listLength, members⟩ := consistent.owned id list other listed known
      refine ⟨listDistinct, listLength, ?_⟩
      intro hash
      rw [members, placing.lookup]
      split
      · next member =>
          have otherId := consistent.named id other known
          rw [placing.fresh hash member]
          constructor
          · intro absurdity
            cases absurdity
          · intro sameNode
            cases sameNode
            exact absurd otherId.symm same
      · exact Iff.rfl

theorem lookup_foldl_erase (ring : AList (fun _ : Hash => CacheNode)) (hashes : List Hash)
    (hash : Hash) :
    (hashes.foldl (fun ring hash => ring.erase hash) ring).lookup hash =
      if hash ∈ hashes then none else ring.lookup hash := by
  induction hashes generalizing ring with
  | nil => simp
  | cons first rest ih =>
    rw [List.foldl_cons, ih]
    by_cases same : hash = first
    · subst same
      simp
    · rw [AList.lookup_erase_ne same]
      simp [same]

/-- The ring after the hashes of a node are gone. -/
structure Removed (before after : HashRing) (id : Bytes) (node : CacheNode) : Prop where
  known : before.nodes.lookup id = some node
  lookup : ∀ hash, after.ring.lookup hash =
    if before.ring.lookup hash = some node then none else before.ring.lookup hash
  sorted : after.sortedHashes = sortHashes after.ring.keys
  nodes : after.nodes = before.nodes.erase id
  nodeHashes : after.nodeHashes = before.nodeHashes.erase id
  setup : SameSetup before after

/-- What `Remove` can do: fail, or take a node and its hashes away. -/
theorem remove_cases {r : HashRing} (consistent : r.Consistent) (id : Bytes) :
    r.remove id = (r, some errNodeNotFound) ∧ r.nodes.lookup id = none ∨
      ∃ after node, r.remove id = (after, none) ∧ Removed r after id node := by
  unfold remove
  cases known : r.nodes.lookup id with
  | none => exact Or.inl ⟨by simp, rfl⟩
  | some node =>
    have isListed : (r.nodeHashes.lookup id).isSome := by
      rw [consistent.listed, known]
      rfl
    obtain ⟨hashes, listed⟩ := Option.isSome_iff_exists.mp isListed
    obtain ⟨-, -, members⟩ := consistent.owned id hashes node listed known
    refine Or.inr ⟨_, node, if_pos rfl, known, ?_, rfl, rfl, rfl, rfl, rfl⟩
    intro hash
    change (List.foldl _ r.ring ((r.nodeHashes.lookup id).getD [])).lookup hash = _
    rw [listed, Option.getD_some, lookup_foldl_erase]
    simp only [members]

theorem Removed.consistent {r after : HashRing} {id : Bytes} {node : CacheNode}
    (consistent : r.Consistent) (removed : Removed r after id node) : after.Consistent := by
  constructor
  · rw [removed.sorted]
    exact sortHashes_increasing after.ring.keys_nodup
  · intro hash
    rw [removed.sorted, mem_sortHashes, mem_keys_iff]
  · intro hash other found
    rw [removed.lookup] at found
    split at found
    · cases found
    · next notRemoved =>
        have known := consistent.owner hash other found
        have different : other.id ≠ id := by
          intro same
          rw [same, removed.known, Option.some.injEq] at known
          rw [known] at notRemoved
          exact notRemoved found
        rw [removed.nodes, AList.lookup_erase_ne different]
        exact known
  · intro other found known
    rw [removed.nodes] at known
    exact consistent.named other found (lookup_of_erase known)
  · intro other
    rw [removed.nodes, removed.nodeHashes]
    by_cases same : other = id
    · subst same
      simp
    · rw [AList.lookup_erase_ne same, AList.lookup_erase_ne same]
      exact consistent.listed other
  · intro other hashes found listed known
    rw [removed.nodeHashes] at listed
    rw [removed.nodes] at known
    rw [removed.setup.virtualNodes]
    obtain ⟨distinct, length, members⟩ :=
      consistent.owned other hashes found (lookup_of_erase listed) (lookup_of_erase known)
    refine ⟨distinct, length, ?_⟩
    have different : found ≠ node := by
      rintro rfl
      have foundId := consistent.named other found (lookup_of_erase known)
      have removedId := consistent.named id found removed.known
      rw [← foundId, removedId, AList.lookup_erase] at known
      cases known
    intro hash
    rw [members, removed.lookup]
    split
    · next isRemoved =>
        rw [isRemoved]
        simp [Ne.symm different]
    · exact Iff.rfl

/-! ## Lookups -/

/-- The hashes in the ring. -/
def points (r : HashRing) : Set Hash := {hash | (r.ring.lookup hash).isSome}

/-- The index at which a lookup starts is that of the first hash that is not before the key's,
or the first one where there is none. -/
theorem startIndex_bounds {r : HashRing} (consistent : r.Consistent) (key : Bytes) :
    ∃ idx, r.startIndex key = (if r.sortedHashes.length ≤ idx then 0 else idx) ∧
      (∀ earlier < idx, ∀ other, r.sortedHashes[earlier]? = some other →
        other < r.hashFunc key) ∧
      ∀ later, idx ≤ later → ∀ other, r.sortedHashes[later]? = some other →
        r.hashFunc key ≤ other := by
  have upward : ∀ earlier later, earlier ≤ later → later < r.sortedHashes.length →
      r.sortedHashes[earlier]?.any (fun stored => decide (r.hashFunc key ≤ stored)) = true →
      r.sortedHashes[later]?.any (fun stored => decide (r.hashFunc key ≤ stored)) = true := by
    intro earlier later atMost bound holds
    have earlierBound : earlier < r.sortedHashes.length := by omega
    rw [List.getElem?_eq_getElem earlierBound] at holds
    rw [List.getElem?_eq_getElem bound]
    simp only [Option.any_some, decide_eq_true_eq] at holds ⊢
    rcases Nat.lt_or_eq_of_le atMost with less | rfl
    · exact holds.trans (List.pairwise_iff_getElem.mp consistent.increasing earlier later
        earlierBound bound less).le
    · exact holds
  obtain ⟨idx, searched, first⟩ := search_spec (m := Id) (fun _ _ => rfl) upward
  refine ⟨idx, ?_, ?_, ?_⟩
  · unfold startIndex
    simp only [searched]
    rfl
  · intro earlier less other found
    have missed := first.before earlier less
    rw [found] at missed
    simpa using missed
  · intro later atLeast other found
    obtain ⟨bound, -⟩ := List.getElem?_eq_some_iff.mp found
    have reached := first.after later atLeast bound
    rw [found, Option.any_some, decide_eq_true_eq] at reached
    exact reached

/-- A lookup starts at the first hash from the key's hash on, clockwise. -/
theorem startIndex_spec {r : HashRing} (consistent : r.Consistent)
    (nonempty : r.sortedHashes ≠ []) (key : Bytes) :
    ∃ point, r.sortedHashes[r.startIndex key]? = some point ∧
      FirstFrom r.points (r.hashFunc key) point := by
  have pointsEq : r.points = {hash | hash ∈ r.sortedHashes} := by
    apply Set.ext
    intro hash
    exact (consistent.mem_sorted hash).symm
  obtain ⟨idx, startEq, before, after⟩ := startIndex_bounds consistent key
  rw [pointsEq, startEq]
  by_cases beyond : r.sortedHashes.length ≤ idx
  · have positive : 0 < r.sortedHashes.length := List.length_pos_iff.mpr nonempty
    have head := List.getElem?_eq_getElem positive
    rw [if_pos beyond]
    exact ⟨_, head, firstFrom_of_index consistent.increasing before (Or.inr ⟨beyond, head⟩)⟩
  · have bound : idx < r.sortedHashes.length := Nat.lt_of_not_le beyond
    have atIndex := List.getElem?_eq_getElem bound
    have reached := after idx (Nat.le_refl idx) _ atIndex
    rw [if_neg beyond]
    exact ⟨_, atIndex,
      firstFrom_of_index consistent.increasing before (Or.inl ⟨atIndex, reached⟩)⟩

/-- `Get` returns the owner of the first hash from the key's hash on. -/
theorem get_spec {r : HashRing} (consistent : r.Consistent) (key : Bytes) :
    r.get key = .error errNoNodesAvailable ∧ r.points = ∅ ∨
      ∃ point node, FirstFrom r.points (r.hashFunc key) point ∧
        r.ring.lookup point = some node ∧ r.get key = .ok (some node) := by
  unfold get
  by_cases empty : r.sortedHashes = []
  · refine Or.inl ⟨if_pos empty, ?_⟩
    apply Set.eq_empty_of_forall_notMem
    intro hash member
    have stored := (consistent.mem_sorted hash).mpr member
    rw [empty] at stored
    cases stored
  · obtain ⟨point, found, first⟩ := startIndex_spec consistent empty key
    obtain ⟨node, owner⟩ := Option.isSome_iff_exists.mp first.mem
    refine Or.inr ⟨point, node, first, owner, ?_⟩
    rw [if_neg empty, nodeAt, found, Option.bind_some, owner]

/-- A ring with more hashes gives the same node for a key, or the owner of one
of the additional hashes. -/
theorem get_of_more {fewer more : HashRing} (fewerConsistent : fewer.Consistent)
    (moreConsistent : more.Consistent) (sameHash : more.hashFunc = fewer.hashFunc)
    (kept : ∀ hash node, fewer.ring.lookup hash = some node →
      more.ring.lookup hash = some node) (key : Bytes) :
    more.get key = fewer.get key ∨ ∃ hash node, fewer.ring.lookup hash = none ∧
      more.ring.lookup hash = some node ∧ more.get key = .ok (some node) := by
  have subset : fewer.points ⊆ more.points := by
    intro hash member
    obtain ⟨node, found⟩ := Option.isSome_iff_exists.mp member
    exact Option.isSome_iff_exists.mpr ⟨node, kept hash node found⟩
  rcases get_spec moreConsistent key with ⟨moreEq, empty⟩ | ⟨point, node, first, owner, moreEq⟩
  · rcases get_spec fewerConsistent key with ⟨fewerEq, -⟩ | ⟨point, node, first, -, -⟩
    · exact Or.inl (moreEq.trans fewerEq.symm)
    · have impossible := subset first.mem
      rw [empty] at impossible
      cases impossible
  · cases before : fewer.ring.lookup point with
    | none => exact Or.inr ⟨point, node, before, owner, moreEq⟩
    | some oldNode =>
      have member : point ∈ fewer.points := Option.isSome_iff_exists.mpr ⟨oldNode, before⟩
      have sameNode := kept point oldNode before
      rw [owner, Option.some.injEq] at sameNode
      have stillFirst := first.restrict subset member
      rcases get_spec fewerConsistent key with ⟨-, empty⟩ |
        ⟨oldPoint, other, oldFirst, oldOwner, fewerEq⟩
      · rw [empty] at member
        cases member
      · rw [sameHash] at stillFirst
        have samePoint := oldFirst.unique stillFirst
        rw [samePoint, before, Option.some.injEq] at oldOwner
        rw [moreEq, fewerEq, sameNode, oldOwner]
        exact Or.inl rfl

end HashRing

/-! ## Runs -/

/-- What one call may change. -/
def CallEffect (before : HashRing) (call : RingCall) (after : HashRing)
    (failure : Option GoError) : Prop :=
  match call with
  | .add node =>
    (failure ≠ none → before.Unchanged after) ∧
      (failure = none → ∀ key, after.get key = before.get key ∨ after.get key = .ok node)
  | .remove nodeID =>
    (failure ≠ none → before.Unchanged after) ∧
      ∀ key, after.get key = before.get key ∨
        ∃ node, node.id = nodeID ∧ before.get key = .ok (some node)

namespace HashRing

theorem Unchanged.consistent {r after : HashRing} (unchanged : Unchanged r after)
    (setup : SameSetup r after) (consistent : r.Consistent) : after.Consistent := by
  obtain ⟨increasing, mem_sorted, owner, named, listed, owned⟩ := consistent
  constructor
  · rw [unchanged.sortedHashes]
    exact increasing
  · rw [unchanged.sortedHashes, unchanged.ring]
    exact mem_sorted
  · rw [unchanged.ring, unchanged.nodes]
    exact owner
  · rw [unchanged.nodes]
    exact named
  · rw [unchanged.nodes, unchanged.nodeHashes]
    exact listed
  · rw [unchanged.nodes, unchanged.nodeHashes, unchanged.ring, setup.virtualNodes]
    exact owned

theorem add_effect {r after : HashRing} {node : Option CacheNode} {failure : Option GoError}
    (consistent : r.Consistent) (added : r.add node = (after, failure)) :
    after.Consistent ∧ CallEffect r (.add node) after failure := by
  rcases add_cases consistent node with ⟨failed, reason, failedEq, unchanged, setup⟩ |
    ⟨new, -, placed, hashes, rfl, absent, -, -, placing, length, storedEq⟩
  · rw [failedEq, Prod.mk.injEq] at added
    obtain ⟨rfl, rfl⟩ := added
    exact ⟨unchanged.consistent setup consistent, fun _ => unchanged,
      fun absurdity => by cases absurdity⟩
  · rw [storedEq, Prod.mk.injEq] at added
    obtain ⟨rfl, rfl⟩ := added
    have stored := placing.store_consistent consistent absent length
    refine ⟨stored, fun absurdity => absurd rfl absurdity, ?_⟩
    intro _ key
    have kept : ∀ hash other, r.ring.lookup hash = some other →
        (placed.store new hashes).ring.lookup hash = some other := by
      intro hash other found
      change placed.ring.lookup hash = some other
      rw [placing.lookup]
      split
      · next member =>
          rw [placing.fresh hash member] at found
          cases found
      · exact found
    rcases get_of_more consistent stored placing.setup.hashFunc kept key with
      same | ⟨hash, owner, wasFree, nowOwned, getEq⟩
    · exact Or.inl same
    · change placed.ring.lookup hash = some owner at nowOwned
      rw [placing.lookup] at nowOwned
      split at nowOwned
      · cases nowOwned
        exact Or.inr getEq
      · rw [wasFree] at nowOwned
        cases nowOwned

theorem remove_effect {r after : HashRing} {nodeID : Bytes} {failure : Option GoError}
    (consistent : r.Consistent) (removedEq : r.remove nodeID = (after, failure)) :
    after.Consistent ∧ CallEffect r (.remove nodeID) after failure := by
  rcases remove_cases consistent nodeID with ⟨failedEq, -⟩ | ⟨result, node, resultEq, removed⟩
  · rw [failedEq, Prod.mk.injEq] at removedEq
    obtain ⟨rfl, rfl⟩ := removedEq
    exact ⟨consistent, fun _ => ⟨rfl, rfl, rfl, rfl⟩, fun _ => Or.inl rfl⟩
  · rw [resultEq, Prod.mk.injEq] at removedEq
    obtain ⟨rfl, rfl⟩ := removedEq
    have again := removed.consistent consistent
    refine ⟨again, fun absurdity => absurd rfl absurdity, ?_⟩
    intro key
    have kept : ∀ hash other, result.ring.lookup hash = some other →
        r.ring.lookup hash = some other := by
      intro hash other found
      rw [removed.lookup] at found
      split at found
      · cases found
      · exact found
    rcases get_of_more again consistent removed.setup.hashFunc.symm kept key with
      same | ⟨hash, owner, nowFree, wasOwned, getEq⟩
    · exact Or.inl same.symm
    · rw [removed.lookup, wasOwned] at nowFree
      split at nowFree
      · next sameNode =>
          rw [Option.some.injEq] at sameNode
          rw [sameNode] at getEq
          exact Or.inr ⟨node, consistent.named nodeID node removed.known, getEq⟩
      · cases nowFree

theorem call_effect {r after : HashRing} {call : RingCall} {failure : Option GoError}
    (consistent : r.Consistent) (called : r.call call = (after, failure)) :
    after.Consistent ∧ CallEffect r call after failure := by
  cases call with
  | add node => exact add_effect consistent called
  | remove nodeID => exact remove_effect consistent called

end HashRing

/-- After any calls on a new ring its maps agree, and the next call, whichever
it is, changes no lookup that it need not change. -/
theorem ring_consistent (config : Option RingConfig) (calls : List RingCall) (r : HashRing)
    (reached : ringMachine.run (HashRing.new config) calls = some r) :
    r.Consistent ∧ ∀ call, CallEffect r call (r.call call).1 (r.call call).2 := by
  have keeps : ∀ (state : HashRing) (call : RingCall) (next : HashRing) (out : Option GoError),
      True → state.Consistent → ringMachine.step state call = some (next, out) →
      next.Consistent := by
    intro state call next out _ consistent stepped
    exact (HashRing.call_effect consistent (Option.some.inj stepped)).1
  have consistent : r.Consistent :=
    Machine.run_invariant keeps (HashRing.new_consistent config) (fun _ _ => trivial) reached
  exact ⟨consistent, fun call => (HashRing.call_effect consistent rfl).2⟩

/-- A node with a cache. -/
def sampleNode (name : String) (weight : Int) : CacheNode := ⟨ascii name, weight, some 0⟩

/-- Two virtual nodes for each unit of weight, all with the greatest hash. -/
def collidingConfig : RingConfig := ⟨2, some fun _ => 4294967295⟩

/-- Calls of which the third fails. -/
def sampleCalls : List RingCall :=
  [.add (some (sampleNode "a" 1)), .add (some (sampleNode "b" 2)),
    .add (some (sampleNode "a" 3)), .remove (ascii "a")]

/-- A run in which all virtual nodes collide and probing wraps around. -/
theorem ring_consistent_sample : ∃ r,
    ringMachine.run (HashRing.new (some collidingConfig)) sampleCalls = some r ∧
      r.sortedHashes = [1, 2, 3, 4] ∧ r.Consistent ∧
      ∀ call, CallEffect r call (r.call call).1 (r.call call).2 := by
  have facts : (ringMachine.run (HashRing.new (some collidingConfig)) sampleCalls).map
      HashRing.sortedHashes = some [1, 2, 3, 4] := by decide +kernel
  obtain ⟨r, ran, sorted⟩ := Option.map_eq_some_iff.mp facts
  exact ⟨r, ran, sorted, ring_consistent (some collidingConfig) sampleCalls r ran⟩

end Plumego.Distributed
