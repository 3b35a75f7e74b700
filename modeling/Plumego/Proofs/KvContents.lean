/-
Module: Plumego.Proofs.KvContents
Purpose: What the key-value engine's memory maps each key to, after each locked
  section and after the eviction loops.
Trusted boundary: none
Main exports: Memory.find_remove, Memory.find_load, Memory.find_put,
  Memory.find_evict, Memory.evictUntil_invariant
-/
import Plumego.KvEngine.Store
import Plumego.Proofs.KvLru

namespace Plumego.KvEngine

open Go Lib

theorem Shard.insert_data (shard : Shard) (entry : EntryPtr) :
    (shard.insert entry).data = shard.data.insert entry.entry.key entry := by
  unfold Shard.insert Shard.moveToFront
  split <;> rfl

namespace Memory

variable {memory : Memory}

@[simp] theorem length_removeAt (memory : Memory) (index : Nat) (key : Bytes) :
    (memory.removeAt index key).shards.length = memory.shards.length := by
  rw [removeAt_shards, List.length_modify]

@[simp] theorem length_remove (memory : Memory) (key : Bytes) :
    (memory.remove key).shards.length = memory.shards.length :=
  length_removeAt _ _ _

@[simp] theorem length_load (memory : Memory) (entry : Entry) :
    (memory.load entry).shards.length = memory.shards.length :=
  List.length_modify _ _ _

@[simp] theorem length_put (memory : Memory) (entry : Entry) :
    (memory.put entry).shards.length = memory.shards.length := by
  rw [put, length_load, length_remove]

@[simp] theorem length_evict (memory : Memory) (index : Nat) :
    (memory.evict index).shards.length = memory.shards.length := by
  rw [evict_shards, List.length_modify]

@[simp] theorem length_replay (memory : Memory) (record : WALEntry) :
    (memory.replay record).shards.length = memory.shards.length := by
  unfold replay
  split
  · exact length_put _ _
  · split
    · exact length_remove _ _
    · rfl

@[simp] theorem length_loads (memory : Memory) (entries : List Entry) :
    (entries.foldl load memory).shards.length = memory.shards.length := by
  induction entries generalizing memory with
  | nil => rfl
  | cons entry rest ih =>
    rw [List.foldl_cons, ih, length_load]

@[simp] theorem length_replays (memory : Memory) (records : List WALEntry) :
    (records.foldl replay memory).shards.length = memory.shards.length := by
  induction records generalizing memory with
  | nil => rfl
  | cons record rest ih =>
    rw [List.foldl_cons, ih, length_replay]

/-! ## Looking a key up after a section -/

theorem shardIndex_lt (positive : 0 < memory.shards.length) (key : Bytes) :
    memory.shardIndex key < memory.shards.length := by
  have masked : memory.shardIndex key ≤ memory.shards.length - 1 := by
    rw [shardIndex, UInt32.toNat_and]
    refine le_trans Nat.and_le_right ?_
    rw [UInt32.toNat_ofNat']
    exact Nat.mod_le _ _
  omega

theorem exists_shard (positive : 0 < memory.shards.length) (key : Bytes) :
    ∃ shard, memory.shards[memory.shardIndex key]? = some shard :=
  ⟨_, List.getElem?_eq_getElem (shardIndex_lt positive key)⟩

theorem find_eq (memory : Memory) (key : Bytes) :
    memory.find key =
      (memory.shards[memory.shardIndex key]?).bind (·.data.lookup key) := by
  rw [find, getShard]
  cases memory.shards[memory.shardIndex key]? with
  | none => rfl
  | some shard => rfl

theorem find_newMemory (shardCount : Nat) (key : Bytes) :
    (newMemory shardCount).find key = none := by
  rw [find_eq]
  cases shardEq : (newMemory shardCount).shards[(newMemory shardCount).shardIndex key]? with
  | none => rfl
  | some shard =>
    have isEmpty := List.eq_of_mem_replicate (List.mem_of_getElem? shardEq)
    rw [Option.bind_some, isEmpty]
    rfl

/-- A lookup after one shard has changed. -/
theorem find_modify {later : Memory} {index : Nat} {change : Shard → Shard}
    (shardsEq : later.shards = memory.shards.modify index change) (key : Bytes) :
    later.find key = (memory.shards[memory.shardIndex key]?).bind fun shard =>
      (if index = memory.shardIndex key then change shard else shard).data.lookup key := by
  have sameIndex : later.shardIndex key = memory.shardIndex key := by
    rw [shardIndex, shardsEq, List.length_modify, shardIndex]
  rw [find_eq, sameIndex, shardsEq, List.getElem?_modify]
  cases memory.shards[memory.shardIndex key]? with
  | none => rfl
  | some shard => rfl

/-- Deleting a key in its shard. -/
theorem find_remove (memory : Memory) (key other : Bytes) :
    (memory.remove key).find other = if other = key then none else memory.find other := by
  rw [remove, find_modify (removeAt_shards memory (memory.shardIndex key) key), find_eq]
  cases memory.shards[memory.shardIndex other]? with
  | none => simp
  | some shard =>
    rw [Option.bind_some, Option.bind_some]
    by_cases same : other = key
    · subst same
      rw [if_pos rfl, if_pos rfl, Shard.remove_data, AList.lookup_erase]
    · rw [if_neg same]
      by_cases sameShard : memory.shardIndex key = memory.shardIndex other
      · rw [if_pos sameShard, Shard.remove_data, AList.lookup_erase_ne same]
      · rw [if_neg sameShard]

/-- Loading an entry. -/
theorem find_load (positive : 0 < memory.shards.length) (entry : Entry) (other : Bytes) :
    (memory.load entry).find other =
      if other = entry.key then some ⟨memory.allocated, entry⟩ else memory.find other := by
  have shardsEq : (memory.load entry).shards = memory.shards.modify
      (memory.shardIndex entry.key) (·.insert ⟨memory.allocated, entry⟩) := rfl
  rw [find_modify shardsEq, find_eq]
  obtain ⟨shard, shardEq⟩ := exists_shard positive other
  rw [shardEq, Option.bind_some, Option.bind_some]
  by_cases same : other = entry.key
  · subst same
    rw [if_pos rfl, if_pos rfl, Shard.insert_data, AList.lookup_insert]
  · rw [if_neg same]
    by_cases sameShard : memory.shardIndex entry.key = memory.shardIndex other
    · rw [if_pos sameShard, Shard.insert_data, AList.lookup_insert_ne same]
    · rw [if_neg sameShard]

/-- Replacing an entry. -/
theorem find_put (positive : 0 < memory.shards.length) (entry : Entry) (other : Bytes) :
    (memory.put entry).find other =
      if other = entry.key then some ⟨memory.allocated, entry⟩ else memory.find other := by
  have stillPositive : 0 < (memory.remove entry.key).shards.length := by
    rw [length_remove]
    exact positive
  have sameAllocated : (memory.remove entry.key).allocated = memory.allocated :=
    removeAt_allocated _ _ _
  rw [put, find_load stillPositive, find_remove, sameAllocated]
  by_cases same : other = entry.key
  · rw [if_pos same, if_pos same]
  · rw [if_neg same, if_neg same, if_neg same]

/-- Evicting an entry of another key. -/
theorem find_evict {index : Nat} {other : Bytes}
    (different : ∀ shard entry, memory.shards[index]? = some shard →
      shard.lruTail = some entry → entry.entry.key ≠ other) :
    (memory.evict index).find other = memory.find other := by
  rw [find_modify (evict_shards memory index), find_eq]
  cases shardEq : memory.shards[memory.shardIndex other]? with
  | none => rfl
  | some shard =>
    rw [Option.bind_some, Option.bind_some]
    by_cases sameShard : index = memory.shardIndex other
    · rw [if_pos sameShard, Shard.evictLRU]
      cases tail : shard.lruTail with
      | none => rfl
      | some entry =>
        have otherKey := different shard entry (by rw [sameShard, shardEq]) tail
        exact AList.lookup_erase_ne (Ne.symm otherKey)
    · rw [if_neg sameShard]

/-! ## Eviction loops -/

/-- One round: which shard it evicts from. -/
theorem evictOneLRUSkip_some {skipKey : Bytes} {next : Memory}
    (evicted : memory.evictOneLRUSkip skipKey = some next) :
    ∃ index shard entry, memory.shards[index]? = some shard ∧
      shard.lruTail = some entry ∧ entry.entry.key ≠ skipKey ∧ next = memory.evict index := by
  unfold evictOneLRUSkip at evicted
  obtain ⟨index, foundEq, nextEq⟩ := Option.map_eq_some_iff.mp evicted
  rw [List.findIdx?_eq_some_iff_getElem] at foundEq
  obtain ⟨bound, holds, -⟩ := foundEq
  unfold evictable at holds
  cases tail : (memory.shards.get ⟨index, bound⟩).lruTail with
  | none =>
    rw [List.get_eq_getElem] at tail
    simp [tail] at holds
  | some entry =>
    rw [List.get_eq_getElem] at tail
    refine ⟨index, memory.shards.get ⟨index, bound⟩, entry, ?_, tail, ?_, nextEq.symm⟩
    · rw [List.get_eq_getElem, List.getElem?_eq_getElem bound]
    · simpa [tail] using holds

/-- Loop rule: what every round keeps holds after the loop. -/
theorem evictUntil_invariant (invariant : Memory → Prop) {room : Memory → Bool}
    {key : Bytes}
    (keeps : ∀ before index shard entry, invariant before →
      before.shards[index]? = some shard → shard.lruTail = some entry →
      entry.entry.key ≠ key → invariant (before.evict index))
    (fuel : Nat) (initial : invariant memory) :
    invariant (evictUntil room key fuel memory).1 := by
  induction fuel generalizing memory with
  | zero => exact initial
  | succ fuel ih =>
    rw [evictUntil]
    split
    · exact initial
    · cases evicted : memory.evictOneLRUSkip key with
      | none => exact initial
      | some next =>
        obtain ⟨index, shard, entry, shardEq, tail, different, rfl⟩ :=
          evictOneLRUSkip_some evicted
        exact ih
          (keeps memory index shard entry initial shardEq tail different)

/-- A loop that reports room has made it. -/
theorem evictUntil_room {room : Memory → Bool} {key : Bytes} (fuel : Nat)
    (enough : (evictUntil room key fuel memory).2 = true) :
    room (evictUntil room key fuel memory).1 = true := by
  induction fuel generalizing memory with
  | zero => exact enough
  | succ fuel ih =>
    rw [evictUntil] at enough ⊢
    split
    · assumption
    · rename_i full
      rw [if_neg full] at enough
      cases evicted : memory.evictOneLRUSkip key with
      | none => simp [evicted] at enough
      | some next =>
        rw [evicted] at enough
        exact ih enough

/-- A loop with room from the start does nothing. -/
theorem evictUntil_of_room {room : Memory → Bool} {key : Bytes} (fuel : Nat)
    (enough : room memory = true) : evictUntil room key fuel memory = (memory, true) := by
  cases fuel with
  | zero => rw [evictUntil, enough]
  | succ fuel => rw [evictUntil, if_pos enough]

/-- What every eviction keeps holds after `ensureCapacityForSet`. -/
theorem ensureCapacityForSet_invariant (invariant : Memory → Prop) (opts : Options)
    {key : Bytes} (size : Int)
    (keeps : ∀ before index shard entry, invariant before →
      before.shards[index]? = some shard → shard.lruTail = some entry →
      entry.entry.key ≠ key → invariant (before.evict index))
    (initial : invariant memory) :
    invariant (memory.ensureCapacityForSet opts key size).1 := by
  have first : invariant (memory.evictEntries opts (memory.find key).isSome key).1 :=
    evictUntil_invariant invariant keeps _ initial
  unfold ensureCapacityForSet
  generalize memory.evictEntries opts (memory.find key).isSome key = firstLoop at first ⊢
  obtain ⟨smaller, flag⟩ := firstLoop
  cases flag with
  | false => exact first
  | true =>
    have second : invariant (smaller.evictSize opts size (memory.oldSize key) key).1 :=
      evictUntil_invariant invariant keeps _ first
    dsimp only
    generalize smaller.evictSize opts size (memory.oldSize key) key = secondLoop
      at second ⊢
    obtain ⟨smallest, flag⟩ := secondLoop
    cases flag <;> exact second

theorem evict_entries_le (memory : Memory) (index : Nat) :
    (memory.evict index).entries ≤ memory.entries := by
  unfold evict
  split
  · change memory.entries - 1 ≤ memory.entries
    omega
  · exact le_refl _

theorem roomForEntry_evict {opts : Options} {replacing : Bool}
    (room : memory.roomForEntry opts replacing = true) (index : Nat) :
    (memory.evict index).roomForEntry opts replacing = true := by
  have fewer := evict_entries_le memory index
  unfold roomForEntry at room ⊢
  split at room
  · simp only [decide_eq_true_eq] at room ⊢
    rw [if_pos (by assumption)]
    simp only [decide_eq_true_eq]
    omega
  · rw [if_neg (by assumption)]
    simp only [decide_eq_true_eq] at room ⊢
    omega

/-- Where `ensureCapacityForSet` succeeds, both loops have made room. -/
theorem ensureCapacityForSet_room {opts : Options} {key : Bytes} {size : Int}
    {smallest : Memory}
    (ensured : memory.ensureCapacityForSet opts key size = (smallest, none)) :
    smallest.roomForEntry opts (memory.find key).isSome = true ∧
      smallest.roomForSize opts size (memory.oldSize key) = true := by
  have first : (memory.evictEntries opts (memory.find key).isSome key).2 = true →
      roomForEntry opts (memory.find key).isSome
        (memory.evictEntries opts (memory.find key).isSome key).1 = true :=
    evictUntil_room _
  unfold ensureCapacityForSet at ensured
  generalize memory.evictEntries opts (memory.find key).isSome key = firstLoop
    at first ensured
  obtain ⟨smaller, flag⟩ := firstLoop
  cases flag with
  | false => simp at ensured
  | true =>
    -- the second loop only evicts further
    have kept : roomForEntry opts (memory.find key).isSome
        (smaller.evictSize opts size (memory.oldSize key) key).1 = true :=
      evictUntil_invariant
        (fun later => later.roomForEntry opts (memory.find key).isSome = true)
        (fun _ index _ _ room _ _ _ => roomForEntry_evict room index) _ (first rfl)
    have second : (smaller.evictSize opts size (memory.oldSize key) key).2 = true →
        roomForSize opts size (memory.oldSize key)
          (smaller.evictSize opts size (memory.oldSize key) key).1 = true :=
      evictUntil_room _
    dsimp only at ensured
    generalize smaller.evictSize opts size (memory.oldSize key) key = secondLoop
      at kept second ensured
    obtain ⟨last, flag⟩ := secondLoop
    cases flag with
    | false => simp at ensured
    | true =>
      rw [Prod.mk.injEq] at ensured
      rw [← ensured.1]
      exact ⟨kept, second rfl⟩

/-- `ensureCapacityForSet` that evicts nothing leaves the memory alone. -/
theorem ensureCapacityForSet_unevicted (memory : Memory) (opts : Options) (key : Bytes)
    (size : Int)
    (same : (memory.ensureCapacityForSet opts key size).1.evictions = memory.evictions) :
    (memory.ensureCapacityForSet opts key size).1 = memory := by
  have unchangedOrEvicted : (memory.ensureCapacityForSet opts key size).1 = memory ∨
      memory.evictions < (memory.ensureCapacityForSet opts key size).1.evictions := by
    refine ensureCapacityForSet_invariant
      (fun later => later = memory ∨ memory.evictions < later.evictions) opts size ?_
      (Or.inl rfl)
    intro before index shard entry beforeEq shardEq tail _
    have counted : (before.evict index).evictions = before.evictions + 1 := by
      rw [evict, shardEq, Option.bind_some, tail]
    right
    rw [counted]
    rcases beforeEq with rfl | more
    · omega
    · omega
  rcases unchangedOrEvicted with unchanged | evicted
  · exact unchanged
  · omega

theorem remove_evictions (memory : Memory) (key : Bytes) :
    (memory.remove key).evictions = memory.evictions := by
  unfold remove removeAt
  split <;> rfl

theorem put_evictions (memory : Memory) (entry : Entry) :
    (memory.put entry).evictions = memory.evictions :=
  remove_evictions memory entry.key

/-- Where there is room from the start, nothing is evicted. -/
theorem ensureCapacityForSet_of_room {opts : Options} {key : Bytes} {size : Int}
    (entryRoom : memory.roomForEntry opts (memory.find key).isSome = true)
    (sizeRoom : memory.roomForSize opts size (memory.oldSize key) = true) :
    memory.ensureCapacityForSet opts key size = (memory, none) := by
  unfold ensureCapacityForSet
  rw [evictEntries, evictUntil_of_room _ entryRoom]
  dsimp only
  rw [evictSize, evictUntil_of_room _ sizeRoom]

/-- The counters after a section that replaces an entry. -/
theorem put_counters (memory : Memory) (entry : Entry) :
    (memory.put entry).entries =
        (if (memory.find entry.key).isSome then memory.entries else memory.entries + 1) ∧
      (memory.put entry).memoryUsage =
        memory.memoryUsage - memory.oldSize entry.key + entry.size := by
  have removed : (memory.remove entry.key).entries =
        (if (memory.find entry.key).isSome then memory.entries - 1 else memory.entries) ∧
      (memory.remove entry.key).memoryUsage =
        memory.memoryUsage - memory.oldSize entry.key := by
    rw [remove, removeAt, oldSize, ← find_eq]
    cases memory.find entry.key with
    | none => simp
    | some old => simp [deleteFromShard]
  constructor
  · change (memory.remove entry.key).entries + 1 = _
    rw [removed.1]
    split <;> omega
  · change (memory.remove entry.key).memoryUsage + entry.size = _
    rw [removed.2]

end Memory

/-! ## The outcomes of the calls -/

/-- How a `Set` ends: refused at once, out of capacity after evictions, failed
at the log, or stored. -/
inductive SetOutcome (env : Externals) (store : Store) (key value : Bytes) (ttl : Int)
    (now : Time) : Store × Option GoError → Prop where
  | refused (failure : GoError) : SetOutcome env store key value ttl now (store, some failure)
  | full {memory : Memory} {failure : GoError}
      (ensured : store.memory.ensureCapacityForSet store.opts key (entrySize key value) =
        (memory, some failure)) :
      SetOutcome env store key value ttl now
        ({ store with memory := memory }, some failure)
  | unlogged {memory : Memory} (wal : Bytes) (failure : GoError)
      (ensured : store.memory.ensureCapacityForSet store.opts key (entrySize key value) =
        (memory, none)) :
      SetOutcome env store key value ttl now
        ({ store with
            memory := memory
            version := wrapInt64 (store.version + 1)
            disk := { store.disk with wal := wal } }, some failure)
  | stored {memory : Memory} {record : WALEntry} {data : Bytes}
      (isOpen : store.closed = false) (writable : store.opts.readOnly = false)
      (ensured : store.memory.ensureCapacityForSet store.opts key (entrySize key value) =
        (memory, none))
      (recordEq : record = Store.checked
        { op := opSet, key := key, value := value, expireAt := Store.setExpiry ttl now,
          version := wrapInt64 (store.version + 1) })
      (encoded : encodeWALEntry env.json store.opts.serializerFormat record = .ok data) :
      SetOutcome env store key value ttl now
        ({ store with
            memory := memory.put record.toEntry
            version := wrapInt64 (store.version + 1)
            disk := { store.disk with wal := store.disk.wal ++ data }
            walSize := store.walSize + data.length }, none)

theorem Store.set_outcome (env : Externals) (store : Store) (key value : Bytes) (ttl : Int)
    (now : Time) (fault : Option Nat) :
    SetOutcome env store key value ttl now (store.set env key value ttl now fault) := by
  unfold Store.set
  split
  · exact .refused _
  · rename_i usable
    rw [Bool.or_eq_true, not_or, Bool.not_eq_true, Bool.not_eq_true] at usable
    dsimp only
    split
    · exact .refused _
    · cases ensured : store.memory.ensureCapacityForSet store.opts key (entrySize key value) with
      | mk memory failure =>
        cases failure with
        | some failure => exact .full ensured
        | none =>
          dsimp only
          unfold Store.writeWALEntry
          dsimp only
          generalize recordEq : Store.checked
            { op := opSet, key := key, value := value,
              expireAt := Store.setExpiry ttl now,
              version := wrapInt64 (store.version + 1) } = record
          cases encoded : encodeWALEntry env.json store.opts.serializerFormat record with
          | error failure => exact .unlogged store.disk.wal _ ensured
          | ok data =>
            cases fault with
            | some written => exact .unlogged _ _ ensured
            | none =>
              have entryEq := congrArg WALEntry.toEntry recordEq
              rw [Store.checked, WALEntry.toEntry] at entryEq
              dsimp only at entryEq ⊢
              rw [entryEq]
              exact .stored usable.1 usable.2 ensured recordEq.symm encoded

/-- Loop rule for `cleanExpired`: what every removal keeps holds after the
whole pass. -/
theorem Store.cleanExpired_invariant (invariant : Memory → Prop)
    (keeps : ∀ before index key, invariant before → invariant (before.removeAt index key))
    {store : Store} (now : Time) (order : MapOrder EntryPtr)
    (initial : invariant store.memory) :
    invariant (store.cleanExpired now order).memory := by
  have removesOne : ∀ index before key, invariant before →
      invariant (removeExpired now index before key) := by
    intro index before key holds
    unfold removeExpired
    split
    · split
      · exact keeps _ _ _ holds
      · exact holds
    · exact holds
  have removesAll : ∀ index (expired : List Bytes) before, invariant before →
      invariant (expired.foldl (removeExpired now index) before) := by
    intro index expired
    induction expired with
    | nil => exact fun before holds => holds
    | cons key rest ih =>
      exact fun before holds => ih _ (removesOne index before key holds)
  have cleansOne : ∀ index fuel before, invariant before →
      invariant (cleanShard now order index fuel before) := by
    intro index fuel
    induction fuel with
    | zero => exact fun before holds => holds
    | succ fuel ih =>
      intro before holds
      unfold cleanShard
      dsimp only
      split
      · exact removesAll index _ before holds
      · split
        · exact removesAll index _ before holds
        · exact ih _ (removesAll index _ before holds)
  unfold cleanExpired
  generalize List.range store.memory.shards.length = indices
  generalize store.memory = memory at initial ⊢
  induction indices generalizing memory with
  | nil => exact initial
  | cons index rest ih =>
    exact ih _ (cleansOne index _ memory initial)

/-- What a `Get` does to the memory. -/
theorem Store.get_memory (store : Store) (key : Bytes) (now : Time) (wait : Nat)
    (locked : Bool) :
    (store.get key now wait locked).1.opts = store.opts ∧
      ((store.get key now wait locked).1.memory = store.memory ∨
        (store.get key now wait locked).1.memory = store.memory.remove key ∨
        (store.get key now wait locked).1.memory = store.memory.promote key) := by
  unfold Store.get
  split
  · exact ⟨rfl, Or.inl rfl⟩
  · split
    · exact ⟨rfl, Or.inl rfl⟩
    · split
      · exact ⟨rfl, Or.inr (Or.inl rfl)⟩
      · split
        · split
          · exact ⟨rfl, Or.inl rfl⟩
          · exact ⟨rfl, Or.inr (Or.inr rfl)⟩
        · exact ⟨rfl, Or.inl rfl⟩

/-- How a `Delete` ends: refused, failed at the log, logged for a missing key,
or done. -/
inductive DeleteOutcome (env : Externals) (store : Store) (key : Bytes) :
    Store × Option GoError → Prop where
  | refused (failure : GoError) : DeleteOutcome env store key (store, some failure)
  | unlogged (wal : Bytes) (failure : GoError) :
      DeleteOutcome env store key
        ({ store with
            version := wrapInt64 (store.version + 1)
            disk := { store.disk with wal := wal } }, some failure)
  | missing (wal : Bytes) (walSize : Int) (failure : GoError)
      (absent : store.memory.find key = none) :
      DeleteOutcome env store key
        ({ store with
            version := wrapInt64 (store.version + 1)
            disk := { store.disk with wal := wal }
            walSize := walSize }, some failure)
  | deleted {record : WALEntry} {data : Bytes}
      (isOpen : store.closed = false) (writable : store.opts.readOnly = false)
      (recordEq : record = Store.checked
        { op := opDelete, key := key, version := wrapInt64 (store.version + 1) })
      (encoded : encodeWALEntry env.json store.opts.serializerFormat record = .ok data)
      (present : (store.memory.find key).isSome) :
      DeleteOutcome env store key
        ({ store with
            memory := store.memory.remove key
            version := wrapInt64 (store.version + 1)
            disk := { store.disk with wal := store.disk.wal ++ data }
            walSize := store.walSize + data.length }, none)

theorem Store.delete_outcome (env : Externals) (store : Store) (key : Bytes)
    (fault : Option Nat) : DeleteOutcome env store key (store.delete env key fault) := by
  unfold Store.delete
  split
  · exact .refused _
  · rename_i usable
    rw [Bool.or_eq_true, not_or, Bool.not_eq_true, Bool.not_eq_true] at usable
    dsimp only
    unfold Store.writeWALEntry
    dsimp only
    generalize recordEq : Store.checked
      { op := opDelete, key := key, version := wrapInt64 (store.version + 1) } = record
    cases encoded : encodeWALEntry env.json store.opts.serializerFormat record with
    | error failure => exact .unlogged store.disk.wal _
    | ok data =>
      cases fault with
      | some written => exact .unlogged _ _
      | none =>
        dsimp only
        cases present : store.memory.find key with
        | none => exact .missing _ _ _ present
        | some entry =>
          exact .deleted usable.1 usable.2 recordEq.symm encoded (by rw [present]; rfl)

/-- `Snapshot` changes only the directory. -/
theorem Store.snapshot_memory (env : Externals) (store : Store) (created now : Time)
    (order : MapOrder EntryPtr) (fault : Option SnapshotFault) :
    (store.snapshot env created now order fault).1.memory = store.memory ∧
      (store.snapshot env created now order fault).1.opts = store.opts := by
  unfold Store.snapshot
  split
  · exact ⟨rfl, rfl⟩
  · split
    · exact ⟨rfl, rfl⟩
    · dsimp only
      split <;> exact ⟨rfl, rfl⟩

/-- A `Snapshot` that succeeds has replaced the file of its format and emptied
the log. -/
theorem Store.snapshot_ok {env : Externals} {store next : Store} {created now : Time}
    {order : MapOrder EntryPtr} {fault : Option SnapshotFault}
    (returned : store.snapshot env created now order fault = (next, none)) :
    ∃ content, store.snapshotFile env created now order = .ok content ∧
      next = { store with
        disk := { renameSnapshot store.disk store.opts.serializerFormat content with wal := [] }
        walSize := 0 } := by
  unfold Store.snapshot at returned
  split at returned
  · cases returned
  · cases written : store.snapshotFile env created now order with
    | error failure => simp [written] at returned
    | ok content =>
      rw [written] at returned
      dsimp only at returned
      cases fault with
      | some place => cases place <;> simp at returned
      | none =>
        rw [Prod.mk.injEq] at returned
        exact ⟨content, rfl, returned.1.symm⟩

/-- What opening a directory gives. -/
theorem newKVStore_ok {env : Externals} {opts : Options} {disk : Disk} {opened : Store}
    (success : newKVStore env opts disk = .ok opened) :
    validateOptions (setDefaults opts) = none ∧ ∃ entries records,
      snapshotEntries env (setDefaults opts) disk = .ok entries ∧
      walEntries env (setDefaults opts) disk = .ok records ∧
      opened =
        { opts := setDefaults opts
          memory := records.foldl Memory.replay
            (entries.foldl Memory.load (newMemory (setDefaults opts).shardCount.toNat))
          disk := disk } := by
  unfold newKVStore at success
  cases valid : validateOptions (setDefaults opts) with
  | some failure => simp [valid] at success
  | none =>
    rw [valid] at success
    dsimp only at success
    unfold loadData loadSnapshot replayWAL at success
    cases loaded : snapshotEntries env (setDefaults opts) disk with
    | error failure => simp [loaded] at success
    | ok entries =>
      rw [loaded] at success
      dsimp only at success
      cases replayed : walEntries env (setDefaults opts) disk with
      | error failure => simp [replayed] at success
      | ok records =>
        rw [replayed] at success
        dsimp only at success
        rw [Except.ok.injEq] at success
        exact ⟨rfl, entries, records, rfl, rfl, success.symm⟩

/-- Valid options have shards. -/
theorem shardCount_positive {opts : Options} (valid : validateOptions opts = none) :
    0 < opts.shardCount.toNat := by
  unfold validateOptions at valid
  split at valid
  · cases valid
  · split at valid
    · cases valid
    · split at valid
      · cases valid
      · omega

/-! ## Runs of calls -/

theorem storeMachine_run (env : Externals) (store : Store) (ops : List StoreOp) :
    (storeMachine env).run store ops =
      some (ops.foldl (fun store op => (store.apply env op).1) store) := by
  induction ops generalizing store with
  | nil => rfl
  | cons op ops ih =>
    rw [Machine.run_cons]
    exact ih (store.apply env op).1

theorem reaches_after (env : Externals) (disk : Disk) (ops : List StoreOp) :
    (storeMachine env).Reaches (Store.unopened disk) ops (Store.after env disk ops) :=
  ⟨ops, List.prefix_refl ops, storeMachine_run env _ ops⟩

theorem storeMachine_meets_cons {env : Externals} {condition : Store → StoreOp → Prop}
    {store : Store} {op : StoreOp} {ops : List StoreOp} :
    (storeMachine env).Meets condition store (op :: ops) ↔
      condition store op ∧ (storeMachine env).Meets condition (store.apply env op).1 ops :=
  Machine.meets_cons rfl

end Plumego.KvEngine
