/-
Module: Plumego.Proofs.HashRingHistory
Purpose: When the lookups of a hash ring depend on its nodes only and not on
  the calls that built it, and what `GetN` returns for fewer replicas.
Trusted boundary: none
Main exports: Uncrowded, HashRing.Canonical, SameNodes, history_independent, getN_take
-/
import Plumego.Proofs.HashRing

namespace Plumego.Distributed

open Go Lib

/-- The virtual nodes of a node that is added have hashes that are free and all
different. -/
def Uncrowded (r : HashRing) : RingCall → Prop
  | .add (some node) => ∀ count, r.virtualNodeCount node = .ok count →
      ((List.range count.toNat).map (r.hashVirtualNode node.id)).Nodup ∧
        ∀ vnode ∈ List.range count.toNat,
          r.ring.lookup (r.hashVirtualNode node.id vnode) = none
  | _ => True

/-- Both rings have nodes with the same ids and weights. -/
def SameNodes (one two : HashRing) : Prop :=
  ∀ id, (one.nodes.lookup id).map CacheNode.weight = (two.nodes.lookup id).map CacheNode.weight

namespace HashRing

/-! ## Placement without collisions -/

/-- Every virtual node is at its own hash. -/
structure Canonical (r : HashRing) : Prop where
  consistent : r.Consistent
  lookup : ∀ hash node, r.ring.lookup hash = some node ↔
    r.nodes.lookup node.id = some node ∧
      ∃ vnode < (r.virtualNodes * max node.weight 1).toNat, r.hashVirtualNode node.id vnode = hash

theorem new_canonical (config : Option RingConfig) : (new config).Canonical where
  consistent := new_consistent config
  lookup := by simp [new]

/-- A free hash is taken at the first probe. -/
theorem resolveVirtualNodeHash_of_free {r : HashRing} {id : Bytes} {vnode : Nat}
    (free : r.ring.lookup (r.hashVirtualNode id vnode) = none) :
    r.resolveVirtualNodeHash id vnode = (r, .ok (r.hashVirtualNode id vnode)) := by
  change (if (r.ring.lookup (r.hashVirtualNode id vnode)).isSome then _ else _) = _
  rw [free]
  rfl

/-- Where the hashes are free and different, the loop of `Add` places every
virtual node at its own hash. -/
theorem placeAll_of_free {r : HashRing} {node : CacheNode} (hashes : List Hash)
    {vnodes : List Nat} (distinct : (vnodes.map (r.hashVirtualNode node.id)).Nodup)
    (free : ∀ vnode ∈ vnodes, r.ring.lookup (r.hashVirtualNode node.id vnode) = none) :
    ∃ placed, r.placeAll node hashes vnodes =
      (placed, .ok (hashes ++ vnodes.map (r.hashVirtualNode node.id))) := by
  induction vnodes generalizing r hashes with
  | nil => exact ⟨r, by simp [placeAll]⟩
  | cons vnode rest ih =>
    rw [List.map_cons, List.nodup_cons] at distinct
    have headFree := free vnode List.mem_cons_self
    have restFree : ∀ other ∈ rest,
        (r.place node (r.hashVirtualNode node.id vnode)).ring.lookup
          (r.hashVirtualNode node.id other) = none := by
      intro other member
      have different : r.hashVirtualNode node.id other ≠ r.hashVirtualNode node.id vnode := by
        intro same
        exact distinct.1 (List.mem_map.mpr ⟨other, member, same⟩)
      change (r.ring.insert _ node).lookup _ = none
      rw [AList.lookup_insert_ne different]
      exact free other (List.mem_cons_of_mem vnode member)
    have placeRest : ∃ placed, (r.place node (r.hashVirtualNode node.id vnode)).placeAll node
        (hashes ++ [r.hashVirtualNode node.id vnode]) rest =
          (placed, .ok (hashes ++ [r.hashVirtualNode node.id vnode] ++
            rest.map (r.hashVirtualNode node.id))) :=
      ih _ distinct.2 restFree
    obtain ⟨placed, placedEq⟩ := placeRest
    refine ⟨placed, ?_⟩
    unfold placeAll
    rw [resolveVirtualNodeHash_of_free headFree]
    simp only [placedEq, List.append_assoc]
    rfl

/-- The hash of a virtual node depends on the configuration only. -/
theorem SameSetup.hashVirtualNode {one two : HashRing} (setup : SameSetup one two) :
    two.hashVirtualNode = one.hashVirtualNode := by
  unfold HashRing.hashVirtualNode
  rw [setup.hashFunc]

theorem add_canonical {r after : HashRing} {node : Option CacheNode}
    {failure : Option GoError} (canonical : r.Canonical) (uncrowded : Uncrowded r (.add node))
    (added : r.add node = (after, failure)) : after.Canonical ∧ SameSetup r after := by
  have consistent := canonical.consistent
  rcases add_cases consistent node with ⟨failed, reason, failedEq, unchanged, setup⟩ |
    ⟨new, count, placed, hashes, rfl, absent, counted, placedEq, placing, length, storedEq⟩
  · rw [failedEq, Prod.mk.injEq] at added
    obtain ⟨rfl, rfl⟩ := added
    refine ⟨⟨unchanged.consistent setup consistent, ?_⟩, setup⟩
    rw [unchanged.ring, unchanged.nodes, setup.virtualNodes, setup.hashVirtualNode]
    exact canonical.lookup
  · rw [storedEq, Prod.mk.injEq] at added
    obtain ⟨rfl, rfl⟩ := added
    refine ⟨⟨placing.store_consistent consistent absent length, ?_⟩,
      placing.setup.virtualNodes, placing.setup.hashFunc⟩
    obtain ⟨distinct, free⟩ := uncrowded count counted
    obtain ⟨again, againEq⟩ := placeAll_of_free [] distinct free
    rw [againEq, Prod.mk.injEq, Except.ok.injEq, List.nil_append] at placedEq
    have atOwnHash : ∀ hash, hash ∈ hashes ↔
        ∃ vnode < (r.virtualNodes * max new.weight 1).toNat,
          r.hashVirtualNode new.id vnode = hash := by
      intro hash
      rw [← placedEq.2, ← (virtualNodeCount_eq counted).1, List.mem_map]
      simp only [List.mem_range]
    intro hash other
    change placed.ring.lookup hash = some other ↔
      (placed.nodes.insert new.id new).lookup other.id = some other ∧
        ∃ vnode < (placed.virtualNodes * max other.weight 1).toNat,
          placed.hashVirtualNode other.id vnode = hash
    rw [placing.lookup, placing.nodes, placing.setup.virtualNodes,
      placing.setup.hashVirtualNode]
    by_cases sameId : other.id = new.id
    · have notBefore : r.ring.lookup hash ≠ some other := by
        intro found
        have known := consistent.owner hash other found
        rw [sameId, absent] at known
        cases known
      rw [sameId, AList.lookup_insert]
      by_cases member : hash ∈ hashes
      · rw [if_pos member]
        constructor
        · intro same
          cases same
          exact ⟨rfl, (atOwnHash hash).mp member⟩
        · exact And.left
      · rw [if_neg member]
        constructor
        · intro found
          exact absurd found notBefore
        · rintro ⟨same, atHash⟩
          cases same
          exact absurd ((atOwnHash hash).mpr atHash) member
    · rw [AList.lookup_insert_ne sameId]
      by_cases member : hash ∈ hashes
      · rw [if_pos member, ← canonical.lookup, placing.fresh hash member]
        constructor
        · intro same
          cases same
          exact absurd rfl sameId
        · intro absurdity
          cases absurdity
      · rw [if_neg member]
        exact canonical.lookup hash other

theorem remove_canonical {r after : HashRing} {nodeID : Bytes} {failure : Option GoError}
    (canonical : r.Canonical) (removedEq : r.remove nodeID = (after, failure)) :
    after.Canonical ∧ SameSetup r after := by
  have consistent := canonical.consistent
  rcases remove_cases consistent nodeID with ⟨failedEq, -⟩ | ⟨result, node, resultEq, removed⟩
  · rw [failedEq, Prod.mk.injEq] at removedEq
    obtain ⟨rfl, rfl⟩ := removedEq
    exact ⟨canonical, rfl, rfl⟩
  · rw [resultEq, Prod.mk.injEq] at removedEq
    obtain ⟨rfl, rfl⟩ := removedEq
    refine ⟨⟨removed.consistent consistent, ?_⟩, removed.setup⟩
    have nodeId := consistent.named nodeID node removed.known
    intro hash other
    rw [removed.lookup, removed.nodes, removed.setup.virtualNodes,
      removed.setup.hashVirtualNode]
    by_cases sameId : other.id = nodeID
    · rw [sameId, AList.lookup_erase]
      split
      · simp
      · next notRemoved =>
          constructor
          · intro found
            have known := consistent.owner hash other found
            rw [sameId, removed.known, Option.some.injEq] at known
            rw [known] at notRemoved
            exact absurd found notRemoved
          · rintro ⟨absurdity, -⟩
            cases absurdity
    · rw [AList.lookup_erase_ne sameId, ← canonical.lookup]
      split
      · next isRemoved =>
          rw [isRemoved]
          constructor
          · intro absurdity
            cases absurdity
          · intro same
            cases same
            exact absurd nodeId sameId
      · exact Iff.rfl

theorem call_canonical {r after : HashRing} {call : RingCall} {failure : Option GoError}
    (canonical : r.Canonical) (uncrowded : Uncrowded r call)
    (called : r.call call = (after, failure)) : after.Canonical ∧ SameSetup r after := by
  cases call with
  | add node => exact add_canonical canonical uncrowded called
  | remove nodeID => exact remove_canonical canonical called

/-! ## Two rings with the same nodes -/

section Agreement

variable {one two : HashRing}

theorem lookup_id_of_sameNodes (canonical : one.Canonical) (other : two.Canonical)
    (setup : SameSetup one two) (same : SameNodes one two) {hash : Hash} {node : CacheNode}
    (found : one.ring.lookup hash = some node) :
    ∃ partner, two.ring.lookup hash = some partner ∧ partner.id = node.id := by
  obtain ⟨known, vnode, bound, hashEq⟩ := (canonical.lookup hash node).mp found
  have weights := same node.id
  rw [known, Option.map_some, eq_comm, Option.map_eq_some_iff] at weights
  obtain ⟨partner, partnerKnown, weightEq⟩ := weights
  have partnerId := other.consistent.named node.id partner partnerKnown
  refine ⟨partner, (other.lookup hash partner).mpr ⟨?_, vnode, ?_, ?_⟩, partnerId⟩
  · rw [partnerId]
    exact partnerKnown
  · rw [setup.virtualNodes, weightEq]
    exact bound
  · rw [setup.hashVirtualNode, partnerId]
    exact hashEq

/-- The owners of every hash have the same id. -/
theorem lookup_map_id_eq (canonical : one.Canonical) (other : two.Canonical)
    (setup : SameSetup one two) (same : SameNodes one two) (hash : Hash) :
    (one.ring.lookup hash).map CacheNode.id = (two.ring.lookup hash).map CacheNode.id := by
  cases found : one.ring.lookup hash with
  | some node =>
    obtain ⟨partner, partnerFound, partnerId⟩ :=
      lookup_id_of_sameNodes canonical other setup same found
    rw [partnerFound, Option.map_some, Option.map_some, partnerId]
  | none =>
    cases otherFound : two.ring.lookup hash with
    | none => rfl
    | some partner =>
      obtain ⟨node, nodeFound, -⟩ := lookup_id_of_sameNodes other canonical
        ⟨setup.virtualNodes.symm, setup.hashFunc.symm⟩ (fun id => (same id).symm) otherFound
      rw [found] at nodeFound
      cases nodeFound

/-- What the lookups read of two rings is the same, up to the ids of the
nodes. -/
structure Agree (one two : HashRing) : Prop where
  sortedHashes : one.sortedHashes = two.sortedHashes
  hashFunc : one.hashFunc = two.hashFunc
  size : one.nodes.keys.length = two.nodes.keys.length
  owner : ∀ hash, (one.ring.lookup hash).map CacheNode.id =
    (two.ring.lookup hash).map CacheNode.id

theorem agree_of_sameNodes (canonical : one.Canonical) (other : two.Canonical)
    (setup : SameSetup one two) (same : SameNodes one two) : Agree one two := by
  have owner := lookup_map_id_eq canonical other setup same
  refine ⟨?_, setup.hashFunc.symm, ?_, owner⟩
  · apply canonical.consistent.increasing.eq_of_mem_iff other.consistent.increasing
    intro hash
    have sameOwner := congrArg Option.isSome (owner hash)
    rw [Option.isSome_map, Option.isSome_map] at sameOwner
    rw [canonical.consistent.mem_sorted, other.consistent.mem_sorted, sameOwner]
  · apply List.Perm.length_eq
    apply (List.perm_ext_iff_of_nodup one.nodes.keys_nodup two.nodes.keys_nodup).mpr
    intro id
    have sameWeight := congrArg Option.isSome (same id)
    rw [Option.isSome_map, Option.isSome_map] at sameWeight
    rw [← AList.mem_keys, ← AList.mem_keys, ← AList.lookup_isSome, ← AList.lookup_isSome,
      sameWeight]

theorem Agree.startIndex (agree : Agree one two) (key : Bytes) :
    one.startIndex key = two.startIndex key := by
  unfold HashRing.startIndex
  rw [agree.sortedHashes, agree.hashFunc]

theorem Agree.nodeAt (agree : Agree one two) (index : Nat) :
    (one.nodeAt index).map CacheNode.id = (two.nodeAt index).map CacheNode.id := by
  unfold HashRing.nodeAt
  rw [agree.sortedHashes]
  cases two.sortedHashes[index]? with
  | none => rfl
  | some hash => exact agree.owner hash

theorem Agree.get (agree : Agree one two) (key : Bytes) :
    (one.get key).map (Option.map CacheNode.id) =
      (two.get key).map (Option.map CacheNode.id) := by
  unfold HashRing.get
  rw [agree.sortedHashes, agree.startIndex key]
  split
  · rfl
  · exact congrArg Except.ok (agree.nodeAt _)

theorem Agree.collect (agree : Agree one two) (n : Int) (fuel idx : Nat)
    {nodes partners : List CacheNode} (seen : List Bytes)
    (ids : nodes.map CacheNode.id = partners.map CacheNode.id) :
    (one.collect n fuel idx nodes seen).map (List.map CacheNode.id) =
      (two.collect n fuel idx partners seen).map (List.map CacheNode.id) := by
  have lengths : nodes.length = partners.length := by
    have sameLength := congrArg List.length ids
    rwa [List.length_map, List.length_map] at sameLength
  induction fuel generalizing idx nodes partners seen with
  | zero => rfl
  | succ fuel ih =>
    unfold HashRing.collect
    rw [lengths, agree.size, agree.sortedHashes]
    split
    · have sameNode := agree.nodeAt idx
      cases found : one.nodeAt idx with
      | none =>
        rw [found, Option.map_none, eq_comm, Option.map_eq_none_iff] at sameNode
        rw [sameNode]
      | some node =>
        rw [found, Option.map_some, eq_comm, Option.map_eq_some_iff] at sameNode
        obtain ⟨partner, partnerFound, sameId⟩ := sameNode
        rw [partnerFound]
        simp only [sameId]
        split
        · exact ih _ _ ids lengths
        · apply ih
          · rw [List.map_append, List.map_append, ids, List.map_singleton,
              List.map_singleton, sameId]
          · rw [List.length_append, List.length_append, lengths, List.length_singleton,
              List.length_singleton]
    · simp only [Option.map_some, ids]

/-- The end of `GetN`, on the ids of the nodes found. -/
def finish (n : Int) (ids : List Bytes) : Except GoError (List Bytes) :=
  if ids.length < n then .error errInsufficientReplicas else .ok ids

theorem getN_ids (r : HashRing) (fuel idx : Nat) (n : Int) :
    ((r.collect n fuel idx [] []).map fun nodes =>
        if nodes.length < n then Except.error errInsufficientReplicas else .ok nodes).map
        (Except.map (List.map CacheNode.id)) =
      ((r.collect n fuel idx [] []).map (List.map CacheNode.id)).map (finish n) := by
  cases r.collect n fuel idx [] [] with
  | none => rfl
  | some nodes =>
    simp only [Option.map_some, finish, List.length_map]
    split <;> rfl

theorem Agree.getN (agree : Agree one two) (fuel : Nat) (key : Bytes) (n : Int) :
    (one.getN fuel key n).map (Except.map (List.map CacheNode.id)) =
      (two.getN fuel key n).map (Except.map (List.map CacheNode.id)) := by
  unfold HashRing.getN
  rw [agree.sortedHashes, agree.startIndex key]
  split
  · rfl
  split
  · rfl
  split
  · have ids : ([] : List CacheNode).map CacheNode.id = [].map CacheNode.id := rfl
    rw [getN_ids, getN_ids, agree.collect n fuel (two.startIndex key) [] ids]
  · rfl

end Agreement

/-! ## The walk of `GetN` ends -/

theorem nodeAt_isSome {r : HashRing} (consistent : r.Consistent) {index : Nat}
    (bound : index < r.sortedHashes.length) : ∃ node, r.nodeAt index = some node := by
  have stored : r.sortedHashes[index] ∈ r.sortedHashes := List.getElem_mem bound
  obtain ⟨node, found⟩ :=
    Option.isSome_iff_exists.mp ((consistent.mem_sorted _).mp stored)
  refine ⟨node, ?_⟩
  rw [nodeAt, List.getElem?_eq_getElem bound, Option.bind_some, found]

/-- Every node is at some index. -/
theorem exists_nodeAt {r : HashRing} (consistent : r.Consistent) (positive : 0 < r.virtualNodes)
    {id : Bytes} {node : CacheNode} (known : r.nodes.lookup id = some node) :
    ∃ index < r.sortedHashes.length, r.nodeAt index = some node := by
  have isListed : (r.nodeHashes.lookup id).isSome := by
    rw [consistent.listed, known]
    rfl
  obtain ⟨hashes, listed⟩ := Option.isSome_iff_exists.mp isListed
  obtain ⟨-, length, members⟩ := consistent.owned id hashes node listed known
  have atLeastOne : 0 < r.virtualNodes * max node.weight 1 :=
    Int.mul_pos positive (by omega)
  cases hashes with
  | nil =>
    rw [← length] at atLeastOne
    cases atLeastOne
  | cons hash rest =>
    have found := (members hash).mp List.mem_cons_self
    have stored : hash ∈ r.sortedHashes := by
      rw [consistent.mem_sorted, found]
      rfl
    obtain ⟨index, bound, atIndex⟩ := List.getElem_of_mem stored
    refine ⟨index, bound, ?_⟩
    rw [nodeAt, List.getElem?_eq_getElem bound, Option.bind_some, atIndex, found]

/-- Going round from any index, every index is met. -/
theorem exists_offset (start : Nat) {index size : Nat} (bound : index < size) :
    ∃ offset < size, (start + offset) % size = index := by
  have positive : 0 < size := by omega
  have startBound : start % size < size := Nat.mod_lt _ positive
  refine ⟨(index + size - start % size) % size, Nat.mod_lt _ positive, ?_⟩
  have sum : start % size + (index + size - start % size) = index + size := by omega
  calc (start + (index + size - start % size) % size) % size
      = (start % size + (index + size - start % size)) % size := by simp [Nat.add_mod]
    _ = index := by rw [sum, Nat.add_mod_right, Nat.mod_eq_of_lt bound]

/-- The ids of the nodes met so far have been seen. -/
def Visited (r : HashRing) (start count : Nat) (seen : List Bytes) : Prop :=
  ∀ offset < count, ∀ node, r.nodeAt ((start + offset) % r.sortedHashes.length) = some node →
    node.id ∈ seen

/-- After one round every node has been seen. -/
theorem Visited.all_seen {r : HashRing} (consistent : r.Consistent)
    (positive : 0 < r.virtualNodes) {start : Nat} {seen : List Bytes}
    (visited : r.Visited start r.sortedHashes.length seen) :
    r.nodes.keys.length ≤ seen.length := by
  have subset : r.nodes.keys ⊆ seen := by
    intro id member
    have isKnown : (r.nodes.lookup id).isSome := by
      rw [AList.lookup_isSome]
      exact member
    obtain ⟨node, known⟩ := Option.isSome_iff_exists.mp isKnown
    obtain ⟨index, bound, atIndex⟩ := exists_nodeAt consistent positive known
    obtain ⟨offset, offsetBound, offsetEq⟩ := exists_offset start bound
    rw [← consistent.named id node known]
    exact visited offset offsetBound node (by rw [offsetEq]; exact atIndex)
  exact (List.subperm_of_subset r.nodes.keys_nodup subset).length_le

theorem collect_returns {r : HashRing} (consistent : r.Consistent)
    (positive : 0 < r.virtualNodes) (nonempty : r.sortedHashes ≠ []) (n : Int) (start : Nat)
    {fuel count : Nat} {nodes : List CacheNode} {seen : List Bytes}
    (visited : r.Visited start count seen) (bound : count ≤ r.sortedHashes.length)
    (enough : r.sortedHashes.length - count < fuel) :
    ∃ result, r.collect n fuel ((start + count) % r.sortedHashes.length) nodes seen =
      some result := by
  have sizePositive : 0 < r.sortedHashes.length := List.length_pos_iff.mpr nonempty
  induction fuel generalizing count nodes seen with
  | zero => omega
  | succ fuel ih =>
    unfold collect
    split
    · next going =>
        rcases Nat.lt_or_eq_of_le bound with less | whole
        · obtain ⟨node, found⟩ := nodeAt_isSome consistent
            (Nat.mod_lt (start + count) sizePositive)
          have next : ((start + count) % r.sortedHashes.length + 1) % r.sortedHashes.length =
              (start + (count + 1)) % r.sortedHashes.length := by
            rw [Nat.mod_add_mod, Nat.add_assoc]
          have visitedNext : ∀ more, (∀ id ∈ seen, id ∈ more) → node.id ∈ more →
              r.Visited start (count + 1) more := by
            intro more contains present offset offsetBound other atOffset
            rcases Nat.lt_or_eq_of_le (Nat.le_of_lt_succ offsetBound) with earlier | rfl
            · exact contains _ (visited offset earlier other atOffset)
            · rw [found, Option.some.injEq] at atOffset
              rw [← atOffset]
              exact present
          rw [found]
          simp only [next]
          split
          · next present =>
              exact ih (visitedNext seen (fun _ member => member) present)
                less (by omega)
          · exact ih (visitedNext (node.id :: seen)
              (fun _ member => List.mem_cons_of_mem _ member) List.mem_cons_self)
              less (by omega)
        · rw [whole] at visited
          have allSeen := visited.all_seen consistent positive
          omega
    · exact ⟨nodes, rfl⟩

/-- `GetN` returns whenever its slice can be made. -/
theorem getN_returns {r : HashRing} (consistent : r.Consistent) (positive : 0 < r.virtualNodes)
    (key : Bytes) {n : Int} (made : canMake 16 n = true) :
    ∃ fuel result, r.getN fuel key n = some result := by
  by_cases empty : r.sortedHashes = []
  · exact ⟨0, .error errNoNodesAvailable, by simp [getN, empty]⟩
  · obtain ⟨point, found, -⟩ := startIndex_spec consistent empty key
    obtain ⟨bound, -⟩ := List.getElem?_eq_some_iff.mp found
    have begun : r.Visited (r.startIndex key) 0 [] := by
      intro offset offsetBound
      omega
    have returned : ∃ result, r.collect n (r.sortedHashes.length + 1)
        ((r.startIndex key + 0) % r.sortedHashes.length) [] [] = some result :=
      collect_returns consistent positive empty n (r.startIndex key) begun (Nat.zero_le _)
        (by omega)
    have startEq : (r.startIndex key + 0) % r.sortedHashes.length = r.startIndex key :=
      Nat.mod_eq_of_lt bound
    rw [startEq] at returned
    obtain ⟨result, collected⟩ := returned
    refine ⟨r.sortedHashes.length + 1, ?_⟩
    unfold getN
    rw [if_neg empty]
    by_cases small : n ≤ 0
    · rw [if_pos small]
      exact ⟨_, rfl⟩
    · rw [if_neg small, if_pos made, collected]
      exact ⟨_, rfl⟩

end HashRing

/-! ## Histories -/

/-- After calls that meet no collision, every virtual node is at its own
hash. -/
theorem canonical_of_meets {config : Option RingConfig} {calls : List RingCall} {r : HashRing}
    (meets : ringMachine.Meets Uncrowded (HashRing.new config) calls)
    (ran : ringMachine.run (HashRing.new config) calls = some r) :
    r.Canonical ∧ (HashRing.new config).SameSetup r := by
  have keeps : ∀ (state : HashRing) (call : RingCall) (next : HashRing) (out : Option GoError),
      state.Canonical ∧ (HashRing.new config).SameSetup state → Uncrowded state call →
      ringMachine.step state call = some (next, out) →
      next.Canonical ∧ (HashRing.new config).SameSetup next := by
    rintro state call next out ⟨canonical, setup⟩ uncrowded stepped
    obtain ⟨again, nextSetup⟩ :=
      HashRing.call_canonical canonical uncrowded (Option.some.inj stepped)
    exact ⟨again, nextSetup.virtualNodes.trans setup.virtualNodes,
      nextSetup.hashFunc.trans setup.hashFunc⟩
  exact Machine.reaches_invariant keeps ⟨HashRing.new_canonical config, rfl, rfl⟩ meets
    ⟨calls, List.prefix_refl calls, ran⟩

theorem new_virtualNodes_pos (config : Option RingConfig) :
    0 < (HashRing.new config).virtualNodes := by
  cases config with
  | none => decide
  | some config =>
    change 0 < if 0 < config.virtualNodes then config.virtualNodes else 150
    split <;> omega

/-- Two rings that were built without collisions and have the same nodes give
the same ids in all lookups, and the lookups return. -/
theorem history_independent (config : Option RingConfig) (calls otherCalls : List RingCall)
    (one two : HashRing) (ran : ringMachine.run (HashRing.new config) calls = some one)
    (otherRan : ringMachine.run (HashRing.new config) otherCalls = some two)
    (meets : ringMachine.Meets Uncrowded (HashRing.new config) calls)
    (otherMeets : ringMachine.Meets Uncrowded (HashRing.new config) otherCalls)
    (same : SameNodes one two) :
    (∀ key, (one.get key).map (Option.map CacheNode.id) =
        (two.get key).map (Option.map CacheNode.id)) ∧
      (∀ fuel key n, (one.getN fuel key n).map (Except.map (List.map CacheNode.id)) =
        (two.getN fuel key n).map (Except.map (List.map CacheNode.id))) ∧
      ∀ key n, canMake 16 n = true → ∃ fuel result, one.getN fuel key n = some result := by
  obtain ⟨canonical, setup⟩ := canonical_of_meets meets ran
  obtain ⟨other, otherSetup⟩ := canonical_of_meets otherMeets otherRan
  have setups : one.SameSetup two :=
    ⟨otherSetup.virtualNodes.trans setup.virtualNodes.symm,
      otherSetup.hashFunc.trans setup.hashFunc.symm⟩
  have agree := HashRing.agree_of_sameNodes canonical other setups same
  have positive : 0 < one.virtualNodes := by
    rw [setup.virtualNodes]
    exact new_virtualNodes_pos config
  exact ⟨agree.get, agree.getN,
    fun key _ made => HashRing.getN_returns canonical.consistent positive key made⟩

/-! ## Two nodes in both orders -/

instance (r : HashRing) : (call : RingCall) → Decidable (Uncrowded r call)
  | .add (some node) =>
    match counted : r.virtualNodeCount node with
    | .error _ => isTrue fun _ isCount => by cases counted.symm.trans isCount
    | .ok count =>
      decidable_of_iff (((List.range count.toNat).map (r.hashVirtualNode node.id)).Nodup ∧
          ∀ vnode ∈ List.range count.toNat,
            r.ring.lookup (r.hashVirtualNode node.id vnode) = none)
        ⟨fun holds _ isCount => Except.ok.inj (counted.symm.trans isCount) ▸ holds,
          fun holds => holds count counted⟩
  | .add none => inferInstanceAs (Decidable True)
  | .remove _ => inferInstanceAs (Decidable True)

/-- The ring after calls. -/
def ringAfter (config : RingConfig) (calls : List RingCall) : HashRing :=
  calls.foldl (fun r call => (r.call call).1) (HashRing.new (some config))

theorem run_eq_foldl (r : HashRing) (calls : List RingCall) :
    ringMachine.run r calls = some (calls.foldl (fun r call => (r.call call).1) r) := by
  induction calls generalizing r with
  | nil => rfl
  | cons call calls ih => exact ih (r.call call).1

theorem sameNodes_of_perm {one two : HashRing}
    (rearranged : one.nodes.entries.Perm two.nodes.entries) : SameNodes one two := by
  intro id
  rw [AList.perm_lookup rearranged]

/-- One virtual node for each unit of weight; the hash is the sum of the
bytes. -/
def spreadConfig : RingConfig :=
  ⟨1, some fun bytes => Fin.ofNat 4294967296 (bytes.map UInt8.toNat).sum⟩

/-- One virtual node for each unit of weight; all hashes are the same. -/
def constantConfig : RingConfig := ⟨1, some fun _ => 7⟩

/-- First one node, then the other. -/
def firstThenSecond : List RingCall :=
  [.add (some (sampleNode "a" 1)), .add (some (sampleNode "c" 2))]

/-- The nodes in the other order. -/
def secondThenFirst : List RingCall :=
  [.add (some (sampleNode "c" 2)), .add (some (sampleNode "a" 1))]

/-- Without collisions the order does not matter. -/
theorem history_independent_sample :
    ((ringAfter spreadConfig firstThenSecond).get (ascii "key")).map
        (Option.map CacheNode.id) =
      ((ringAfter spreadConfig secondThenFirst).get (ascii "key")).map
        (Option.map CacheNode.id) :=
  (history_independent (some spreadConfig) firstThenSecond secondThenFirst
    (ringAfter spreadConfig firstThenSecond) (ringAfter spreadConfig secondThenFirst)
    (run_eq_foldl _ _) (run_eq_foldl _ _) (by decide +kernel) (by decide +kernel)
    (sameNodes_of_perm (by decide +kernel))).1 (ascii "key")

/-- Two nodes with colliding hashes: all calls succeed and the nodes are the
same, but each ring gives the key to the node that came first. -/
theorem history_matters :
    ringMachine.trace (HashRing.new (some constantConfig)) firstThenSecond = [none, none] ∧
      ringMachine.trace (HashRing.new (some constantConfig)) secondThenFirst = [none, none] ∧
      SameNodes (ringAfter constantConfig firstThenSecond)
        (ringAfter constantConfig secondThenFirst) ∧
      ((ringAfter constantConfig firstThenSecond).get (ascii "key")).map
        (Option.map CacheNode.id) = .ok (some (ascii "a")) ∧
      ((ringAfter constantConfig secondThenFirst).get (ascii "key")).map
        (Option.map CacheNode.id) = .ok (some (ascii "c")) :=
  ⟨by decide +kernel, by decide +kernel, sameNodes_of_perm (by decide +kernel),
    by decide +kernel, by decide +kernel⟩

/-! ## Fewer replicas -/

namespace HashRing

variable {r : HashRing} {n m : Int} {fuel idx : Nat} {nodes more : List CacheNode} {seen : List Bytes}

theorem collect_isPrefix (found : r.collect n fuel idx nodes seen = some more) : nodes <+: more := by
  fun_induction r.collect n fuel idx nodes seen with
  | case1 | case2 => cases found
  | case3 _ _ _ _ _ _ _ _ _ ih => exact ih found
  | case4 _ _ _ _ _ _ _ _ _ ih =>
    exact (List.prefix_append ..).trans (ih found)
  | case5 =>
    cases found
    exact List.prefix_rfl

/-- The loop meets the same nodes whatever their number is to be, and only ends earlier. -/
theorem collect_take (found : r.collect m fuel idx nodes seen = some more) (fewer : n ≤ m)
    (room : nodes.length ≤ n) (enough : m ≤ more.length) :
    r.collect n fuel idx nodes seen = some (more.take n.toNat) := by
  fun_induction r.collect n fuel idx nodes seen with
  | case1 => cases found
  -- where the shorter loop goes on, the longer one takes the same step
  | case2 | case3 | case4 => grind [collect]
  | case5 fuel idx nodes seen done =>
    have full : nodes.length = n := by
      by_contra short
      -- then all nodes are seen, and the longer loop ends here as well
      rw [collect, if_neg (by omega)] at found
      cases found
      omega
    rw [← full, Int.toNat_natCast, ← List.prefix_iff_eq_take.mp (collect_isPrefix found)]

end HashRing

/-- Asked for fewer nodes, `GetN` returns the first of those it returns for more: a key that needs
fewer replicas keeps the preferred ones. -/
theorem getN_take (r : HashRing) (fuel : Nat) (key : Bytes) (n m : Int) (more : List CacheNode)
    (positive : 0 < n) (fewer : n ≤ m) (found : r.getN fuel key m = some (.ok more)) :
    r.getN fuel key n = some (.ok (more.take n.toNat)) := by
  unfold HashRing.getN at found ⊢
  split_ifs at found with empty none made
  · cases found
  · cases found
  obtain ⟨collected, loop, same⟩ := Option.map_eq_some_iff.mp found
  split_ifs at same with short
  cases same
  have smaller : canMake 16 n = true := by
    simp only [canMake, Bool.and_eq_true, decide_eq_true_eq] at made ⊢
    omega
  rw [if_neg empty, if_neg (not_le.mpr positive), if_pos smaller,
    HashRing.collect_take loop fewer positive.le (not_lt.mp short), Option.map_some,
    if_neg (by rw [List.length_take]; omega)]

/-- One node of two. -/
theorem getN_take_sample : ∃ more,
    (ringAfter spreadConfig firstThenSecond).getN 4 (ascii "key") 2 = some (.ok more) ∧
      (ringAfter spreadConfig firstThenSecond).getN 4 (ascii "key") 1 = some (.ok (more.take 1)) := by
  have two : ∃ more,
      (ringAfter spreadConfig firstThenSecond).getN 4 (ascii "key") 2 = some (.ok more) := ⟨_, rfl⟩
  obtain ⟨more, found⟩ := two
  exact ⟨more, found, getN_take _ 4 _ 1 2 more (by decide) (by decide) found⟩

end Plumego.Distributed
