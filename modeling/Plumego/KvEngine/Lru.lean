/-
Module: Plumego.KvEngine.Lru
Purpose: The in-memory half of the key-value engine: shards with their map and
  their doubly linked recency list, the counters kept beside them, and the
  sections that run under a shard's lock.
Trusted boundary: an entry is never written after its allocation, so a pointer
  carries the record it points to; `sync/atomic` counters are unbounded
  integers.
Main exports: Shard, Memory, Section, Memory.apply
-/
import Plumego.Go.Maps
import Plumego.KvEngine.Codec
import Plumego.Lib.Chain

namespace Plumego.KvEngine

open Go Lib

/-- A `*Entry`: its address and the record stored there. -/
structure EntryPtr where
  address : Nat
  entry : Entry
deriving DecidableEq, Repr

/-- `Shard`, with the two pointer maps as functions; a missing key reads as
`nil`. -/
structure Shard where
  data : StringMap EntryPtr := ∅
  lruHead : Option EntryPtr := none
  lruTail : Option EntryPtr := none
  next : EntryPtr → Option EntryPtr := fun _ => none
  prev : EntryPtr → Option EntryPtr := fun _ => none

namespace Shard

/-- `moveToFront`. -/
def moveToFront (shard : Shard) (entry : EntryPtr) : Shard :=
  if shard.lruHead = some entry then shard
  else
    -- remove from the current position
    let next := redirect shard.next (shard.prev entry) (shard.next entry)
    let prev := redirect shard.prev (next entry) (shard.prev entry)
    let tail := if next entry = none then prev entry else shard.lruTail
    -- add to the front
    { shard with
      prev := redirect (Function.update prev entry none) shard.lruHead (some entry)
      next := Function.update next entry shard.lruHead
      lruHead := some entry
      lruTail := if tail = none then some entry else tail }

/-- `deleteFromShard`, without the counters. -/
def unlink (shard : Shard) (key : Bytes) (entry : EntryPtr) : Shard :=
  let next := redirect shard.next (shard.prev entry) (shard.next entry)
  let head := if shard.prev entry = none then next entry else shard.lruHead
  let prev := redirect shard.prev (next entry) (shard.prev entry)
  let tail := if next entry = none then prev entry else shard.lruTail
  { data := shard.data.erase key
    lruHead := head
    lruTail := tail
    next := Function.update next entry none
    prev := Function.update prev entry none }

/-- Take the entry of a key out, if there is one. -/
def remove (shard : Shard) (key : Bytes) : Shard :=
  match shard.data.lookup key with
  | some entry => shard.unlink key entry
  | none => shard

/-- Store a new entry under its key and put it at the front. -/
def insert (shard : Shard) (entry : EntryPtr) : Shard :=
  moveToFront { shard with data := shard.data.insert entry.entry.key entry } entry

/-- Move the entry of a key to the front, if there is one. -/
def promote (shard : Shard) (key : Bytes) : Shard :=
  match shard.data.lookup key with
  | some entry => shard.moveToFront entry
  | none => shard

/-- `evictLRU`, without the counters. -/
def evictLRU (shard : Shard) : Shard :=
  match shard.lruTail with
  | some entry => shard.unlink entry.entry.key entry
  | none => shard

/-- The entries a shard holds, in some order. -/
def held (shard : Shard) : List EntryPtr := values shard.data

end Shard

/-- The shards and the counters that change with them. `allocated` is the
number of entries allocated so far, the address of the next one. -/
structure Memory where
  shards : List Shard
  allocated : Nat := 0
  entries : Int := 0
  memoryUsage : Int := 0
  evictions : Int := 0

/-- The shards as `NewKVStore` allocates them. -/
def newMemory (shardCount : Nat) : Memory := ⟨List.replicate shardCount {}, 0, 0, 0, 0⟩

namespace Memory

/-- The position of a key's shard: its checksum under `shardMask`, which is one
less than the number of shards. -/
def shardIndex (memory : Memory) (key : Bytes) : Nat :=
  (checksumIEEE key &&& UInt32.ofNat (memory.shards.length - 1)).toNat

/-- `getShard`. -/
def getShard (memory : Memory) (key : Bytes) : Shard :=
  (memory.shards[memory.shardIndex key]?).getD {}

/-- `shard.data[key]` in the key's shard. -/
def find (memory : Memory) (key : Bytes) : Option EntryPtr :=
  (memory.getShard key).data.lookup key

/-- All entries in memory, in some order. -/
def held (memory : Memory) : List EntryPtr := memory.shards.flatMap Shard.held

/-- Change one shard in place. -/
def updateShard (memory : Memory) (index : Nat) (change : Shard → Shard) : Memory :=
  { memory with shards := memory.shards.modify index change }

/-- `deleteFromShard`. -/
def deleteFromShard (memory : Memory) (index : Nat) (key : Bytes) (entry : EntryPtr) :
    Memory :=
  { memory.updateShard index (·.unlink key entry) with
    entries := memory.entries - 1
    memoryUsage := memory.memoryUsage - entry.entry.size }

/-- Delete a key in a shard, if it is there. -/
def removeAt (memory : Memory) (index : Nat) (key : Bytes) : Memory :=
  match (memory.shards[index]?).bind (·.data.lookup key) with
  | some entry => memory.deleteFromShard index key entry
  | none => memory

/-- Delete a key in its own shard, if it is there: the locked section of
`Delete`, of an expired `Get` and of a replayed deletion. -/
def remove (memory : Memory) (key : Bytes) : Memory :=
  memory.removeAt (memory.shardIndex key) key

/-- Allocate an entry, store it in its shard and count it: the section of
`loadSnapshot` for one entry. -/
def load (memory : Memory) (entry : Entry) : Memory :=
  { memory.updateShard (memory.shardIndex entry.key) (·.insert ⟨memory.allocated, entry⟩) with
    allocated := memory.allocated + 1
    entries := memory.entries + 1
    memoryUsage := memory.memoryUsage + entry.size }

/-- Replace the entry of a key: the locked section of `Set` and of a replayed
set. -/
def put (memory : Memory) (entry : Entry) : Memory :=
  (memory.remove entry.key).load entry

/-- Move a key's entry to the front, if it is there: the section of `Get` under
a successful `TryLock`. -/
def promote (memory : Memory) (key : Bytes) : Memory :=
  memory.updateShard (memory.shardIndex key) (·.promote key)

/-- `evictLRU` on one shard. -/
def evict (memory : Memory) (index : Nat) : Memory :=
  match (memory.shards[index]?).bind (·.lruTail) with
  | some entry =>
    { memory.deleteFromShard index entry.entry.key entry with
      evictions := memory.evictions + 1 }
  | none => memory

end Memory

/-- The sections that run under one shard's lock. Calls and background workers
interleave only between them. -/
inductive Section where
  | put (entry : Entry)
  | load (entry : Entry)
  | remove (index : Nat) (key : Bytes)
  | promote (key : Bytes)
  | evict (index : Nat)
deriving DecidableEq, Repr

/-- Run one locked section. -/
def Memory.apply (memory : Memory) : Section → Memory
  | .put entry => memory.put entry
  | .load entry => memory.load entry
  | .remove index key => memory.removeAt index key
  | .promote key => memory.promote key
  | .evict index => memory.evict index

end Plumego.KvEngine
