/-
Module: Plumego.Distributed.HashRing
Purpose: The consistent hash ring: placement of virtual nodes with linear
  probing and rollback, removal, and the lookups `Get` and `GetN`.
Trusted boundary: a hash function is any function from bytes to 32-bit numbers;
  each call runs alone, as the ring's lock has it. Sorting hashes is insertion
  sort: equal hashes cannot be told apart, so the result is the same.
Main exports: HashRing, HashRing.add, HashRing.remove, HashRing.get, HashRing.getN, ringMachine
-/
import Plumego.Go.Maps
import Plumego.Go.Numbers
import Plumego.Go.Slices
import Plumego.Lib.Machine

namespace Plumego.Distributed

open Go Lib

def errNoNodesAvailable : GoError := .new "distributed: no nodes available"
def errNodeNotFound : GoError := .new "distributed: node not found"
def errNodeAlreadyExists : GoError := .new "distributed: node already exists"
def errInsufficientReplicas : GoError := .new "distributed: insufficient replicas"
def errHashRingSaturated : GoError := .new "distributed: hash ring placement saturated"
def errHashRingNodeTooLarge : GoError :=
  .new "distributed: hash ring node virtual-node count too large"
def errNodeNil : GoError := .new "distributed: node cannot be nil"
def errNodeIDEmpty : GoError := .new "distributed: node ID cannot be empty"
def errNodeCacheNil : GoError := .new "distributed: node cache cannot be nil"

def maxVirtualNodeHashProbes : Nat := 1024

def maxVirtualNodePlacementsPerNode : Int := 2 ^ 20

/-- A `uint32`; addition wraps around. -/
abbrev Hash := Fin 4294967296

instance Hash.neZero : NeZero 4294967296 := ⟨by decide⟩

/-- `CacheNode`: what the ring reads of it. The cache is a reference, or nil. -/
structure CacheNode where
  id : Bytes
  weight : Int
  cache : Option Nat
deriving DecidableEq, Repr

/-- `ConsistentHashRing`. -/
structure HashRing where
  ring : AList (fun _ : Hash => CacheNode)
  sortedHashes : List Hash
  nodes : StringMap CacheNode
  nodeHashes : StringMap (List Hash)
  virtualNodes : Int
  hashFunc : Bytes → Hash
  collisions : Nat

/-- `ConsistentHashRingConfig`. -/
structure RingConfig where
  virtualNodes : Int
  hashFunc : Option (Bytes → Hash)

/-- `fnv1aHash`. -/
def fnv1aHash (data : Bytes) : Hash :=
  Fin.ofNat 4294967296
    (data.foldl (fun hash byte => ((hash ^^^ byte.toNat) * 16777619) % 2 ^ 32) 2166136261)

namespace HashRing

/-- `NewConsistentHashRing`. -/
def new (config : Option RingConfig) : HashRing where
  ring := ∅
  sortedHashes := []
  nodes := ∅
  nodeHashes := ∅
  virtualNodes :=
    match config with
    | some config => if 0 < config.virtualNodes then config.virtualNodes else 150
    | none => 150
  hashFunc := (config.bind RingConfig.hashFunc).getD fnv1aHash
  collisions := 0

/-! ## Placement -/

/-- `virtualNodeCount`. -/
def virtualNodeCount (r : HashRing) (node : CacheNode) : Except GoError Int :=
  let weight := if node.weight ≤ 0 then 1 else node.weight
  if r.virtualNodes ≤ 0 then .error errHashRingNodeTooLarge
  else if maxVirtualNodePlacementsPerNode.tdiv r.virtualNodes < weight then
    .error errHashRingNodeTooLarge
  else .ok (r.virtualNodes * weight)

/-- `hashVirtualNode`: the hash of the text `id#vnode`. -/
def hashVirtualNode (r : HashRing) (nodeID : Bytes) (vnode : Nat) : Hash :=
  r.hashFunc (nodeID ++ 0x23 :: formatInt vnode)

/-- The loop of `resolveVirtualNodeHash`, which counts the collisions. -/
def probe (r : HashRing) : Nat → Hash → HashRing × Except GoError Hash
  | 0, _ => (r, .error errHashRingSaturated)
  | probes + 1, hash =>
    if (r.ring.lookup hash).isSome then
      probe { r with collisions := (r.collisions + 1) % 2 ^ 64 } probes (hash + 1)
    else (r, .ok hash)

/-- `resolveVirtualNodeHash`. -/
def resolveVirtualNodeHash (r : HashRing) (nodeID : Bytes) (vnode : Nat) :
    HashRing × Except GoError Hash :=
  r.probe maxVirtualNodeHashProbes (r.hashVirtualNode nodeID vnode)

/-- `sort.Slice` by value. -/
def sortHashes (hashes : List Hash) : List Hash := hashes.insertionSort (· ≤ ·)

/-- `rebuildSortedHashes`. -/
def rebuildSortedHashes (r : HashRing) : HashRing :=
  { r with sortedHashes := sortHashes r.ring.keys }

/-- Deletes hashes from the ring. -/
def deleteHashes (r : HashRing) (hashes : List Hash) : HashRing :=
  { r with ring := hashes.foldl (fun ring hash => ring.erase hash) r.ring }

/-- The placement of one virtual node. -/
def place (r : HashRing) (node : CacheNode) (hash : Hash) : HashRing :=
  { r with ring := r.ring.insert hash node, sortedHashes := r.sortedHashes ++ [hash] }

/-- The loop of `Add` over the virtual nodes still to place; it takes the placed
ones back if one cannot be placed. -/
def placeAll (r : HashRing) (node : CacheNode) (hashes : List Hash) :
    List Nat → HashRing × Except GoError (List Hash)
  | [] => (r, .ok hashes)
  | vnode :: rest =>
    match r.resolveVirtualNodeHash node.id vnode with
    | (probed, .error failure) =>
      ((probed.deleteHashes hashes).rebuildSortedHashes, .error failure)
    | (probed, .ok hash) => placeAll (probed.place node hash) node (hashes ++ [hash]) rest

/-- The end of `Add`: the sorted index and the maps of nodes. -/
def store (r : HashRing) (node : CacheNode) (hashes : List Hash) : HashRing :=
  { r with
    sortedHashes := sortHashes r.sortedHashes
    nodes := r.nodes.insert node.id node
    nodeHashes := r.nodeHashes.insert node.id hashes }

/-- `Add`. -/
def add (r : HashRing) : Option CacheNode → HashRing × Option GoError
  | none => (r, some errNodeNil)
  | some node =>
    if node.id = [] then (r, some errNodeIDEmpty)
    else if node.cache = none then (r, some errNodeCacheNil)
    else if (r.nodes.lookup node.id).isSome then (r, some errNodeAlreadyExists)
    else
      match r.virtualNodeCount node with
      | .error failure => (r, some failure)
      | .ok virtualNodes =>
        match r.placeAll node [] (List.range virtualNodes.toNat) with
        | (failed, .error failure) => (failed, some failure)
        | (placed, .ok hashes) => (placed.store node hashes, none)

/-- `Remove`. -/
def remove (r : HashRing) (nodeID : Bytes) : HashRing × Option GoError :=
  if (r.nodes.lookup nodeID).isSome then
    let removed := (r.deleteHashes ((r.nodeHashes.lookup nodeID).getD [])).rebuildSortedHashes
    ({ removed with
        nodes := removed.nodes.erase nodeID
        nodeHashes := removed.nodeHashes.erase nodeID }, none)
  else (r, some errNodeNotFound)

/-! ## Lookups -/

/-- The index at which a lookup starts: that of the first hash at or after the
key's, or the first one. -/
def startIndex (r : HashRing) (key : Bytes) : Nat :=
  let hash := r.hashFunc key
  let idx := Id.run (search r.sortedHashes.length fun index =>
    pure (r.sortedHashes[index]?.any fun stored => decide (hash ≤ stored)))
  if r.sortedHashes.length ≤ idx then 0 else idx

/-- The node at an index of the sorted hashes. -/
def nodeAt (r : HashRing) (index : Nat) : Option CacheNode :=
  r.sortedHashes[index]?.bind r.ring.lookup

/-- `Get`; the node may be nil. -/
def get (r : HashRing) (key : Bytes) : Except GoError (Option CacheNode) :=
  if r.sortedHashes = [] then .error errNoNodesAvailable
  else .ok (r.nodeAt (r.startIndex key))

/-- The loop of `GetN`, with a bound on its rounds; `none` where it panics on a
nil node or has not ended. -/
def collect (r : HashRing) (n : Int) :
    Nat → Nat → List CacheNode → List Bytes → Option (List CacheNode)
  | 0, _, _, _ => none
  | fuel + 1, idx, nodes, seen =>
    if nodes.length < n ∧ seen.length < r.nodes.keys.length then
      match r.nodeAt idx with
      | none => none
      | some node =>
        let next := (idx + 1) % r.sortedHashes.length
        if node.id ∈ seen then r.collect n fuel next nodes seen
        else r.collect n fuel next (nodes ++ [node]) (node.id :: seen)
    else some nodes

/-- `GetN`. A node takes 16 bytes of the slice. -/
def getN (r : HashRing) (fuel : Nat) (key : Bytes) (n : Int) :
    Option (Except GoError (List CacheNode)) :=
  if r.sortedHashes = [] then some (.error errNoNodesAvailable)
  else if n ≤ 0 then some (.error (.new "distributed: n must be greater than 0"))
  else if canMake 16 n then
    (r.collect n fuel (r.startIndex key) [] []).map fun nodes =>
      if nodes.length < n then .error errInsufficientReplicas else .ok nodes
  else none

end HashRing

/-! ## Runs -/

/-- A call that changes the ring. -/
inductive RingCall where
  | add (node : Option CacheNode)
  | remove (nodeID : Bytes)

/-- One call. -/
def HashRing.call (r : HashRing) : RingCall → HashRing × Option GoError
  | .add node => r.add node
  | .remove nodeID => r.remove nodeID

/-- The ring as a machine of calls that run one after the other. -/
def ringMachine : Machine HashRing RingCall (Option GoError) where
  step := fun r call => some (r.call call)

end Plumego.Distributed
