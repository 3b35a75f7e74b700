/-
Module: Plumego.Proofs.KvAccounting
Purpose: The counters of the key-value engine over whole runs of calls, closing
  and reopening: the entry count and the memory usage against what the shards
  hold, and the capacity a successful `Set` leaves.
Trusted boundary: none
Main exports: Memory.Accounted, BackSound, AccountingSafe, Store.Inv, accounted_of_safe
-/
import Mathlib.Algebra.BigOperators.Group.List.Basic
import Plumego.Proofs.KvContents

namespace Plumego.KvEngine

open Go Lib

/-! ## What the shards hold -/

namespace Memory

/-- The counters agree with what the shards hold: the number of keys and the
sum of the sizes. -/
def Accounted (memory : Memory) : Prop :=
  memory.entries = memory.held.length ∧
    memory.memoryUsage = (memory.held.map fun entry => entry.entry.size).sum

instance (memory : Memory) : Decidable memory.Accounted :=
  inferInstanceAs (Decidable (_ ∧ _))

variable {memory : Memory}

/-- Taking an entry out of one shard takes it out of the whole. -/
theorem held_modify {shards : List Shard} {index : Nat} {shard : Shard}
    {change : Shard → Shard} {removed added : List EntryPtr}
    (found : shards[index]? = some shard)
    (changed : (removed ++ (change shard).held).Perm (added ++ shard.held)) :
    (removed ++ (shards.modify index change).flatMap Shard.held).Perm
      (added ++ shards.flatMap Shard.held) := by
  induction shards generalizing index with
  | nil => simp at found
  | cons first rest ih =>
    cases index with
    | zero =>
      rw [List.getElem?_cons_zero, Option.some.injEq] at found
      subst found
      rw [List.modify_zero_cons, List.flatMap_cons, List.flatMap_cons,
        ← List.append_assoc, ← List.append_assoc]
      exact changed.append_right _
    | succ index =>
      rw [List.getElem?_cons_succ] at found
      rw [List.modify_succ_cons, List.flatMap_cons, List.flatMap_cons]
      calc (removed ++ (first.held ++ (rest.modify index change).flatMap Shard.held)).Perm
            (first.held ++ (removed ++ (rest.modify index change).flatMap Shard.held)) :=
            List.perm_append_comm_assoc _ _ _
        List.Perm _ (first.held ++ (added ++ rest.flatMap Shard.held)) :=
            (ih found).append_left _
        List.Perm _ (added ++ (first.held ++ rest.flatMap Shard.held)) :=
            List.perm_append_comm_assoc _ _ _

/-- An entry more or less in the shards and in the counters. -/
theorem Accounted.of_perm {later : Memory} (accounted : memory.Accounted)
    (removed added : List EntryPtr)
    (changed : (removed ++ later.held).Perm (added ++ memory.held))
    (entriesEq : later.entries = memory.entries - removed.length + added.length)
    (usageEq : later.memoryUsage = memory.memoryUsage -
      (removed.map fun entry => entry.entry.size).sum +
      (added.map fun entry => entry.entry.size).sum) : later.Accounted := by
  obtain ⟨countEq, sumEq⟩ := accounted
  have lengths := changed.length_eq
  have sums := (changed.map fun entry => entry.entry.size).sum_eq
  rw [List.length_append, List.length_append] at lengths
  rw [List.map_append, List.map_append, List.sum_append, List.sum_append] at sums
  constructor
  · rw [entriesEq, countEq]
    omega
  · rw [usageEq, sumEq]
    omega

/-! ## Sections and the counters -/

theorem accounted_deleteFromShard {index : Nat} {key : Bytes} {entry : EntryPtr}
    {shard : Shard} (accounted : memory.Accounted)
    (shardEq : memory.shards[index]? = some shard)
    (found : shard.data.lookup key = some entry) :
    (memory.deleteFromShard index key entry).Accounted := by
  have changed : ([entry] ++ (shard.unlink key entry).held).Perm ([] ++ shard.held) :=
    (values_erase_perm found).symm
  refine accounted.of_perm [entry] [] (held_modify shardEq changed) ?_ ?_
  · simp [deleteFromShard]
  · simp [deleteFromShard]

theorem accounted_removeAt (accounted : memory.Accounted) (index : Nat) (key : Bytes) :
    (memory.removeAt index key).Accounted := by
  unfold removeAt
  cases shardEq : memory.shards[index]? with
  | none => exact accounted
  | some shard =>
    rw [Option.bind_some]
    cases found : shard.data.lookup key with
    | none => exact accounted
    | some entry => exact accounted_deleteFromShard accounted shardEq found

theorem accounted_load {entry : Entry} (accounted : memory.Accounted)
    (positive : 0 < memory.shards.length) (absent : memory.find entry.key = none) :
    (memory.load entry).Accounted := by
  obtain ⟨shard, shardEq⟩ := exists_shard positive entry.key
  rw [find_eq, shardEq, Option.bind_some] at absent
  have changed : ([] ++ (shard.insert ⟨memory.allocated, entry⟩).held).Perm
      ([(⟨memory.allocated, entry⟩ : EntryPtr)] ++ shard.held) := by
    rw [List.nil_append, Shard.held, Shard.insert_data]
    exact values_insert_perm _ absent
  refine accounted.of_perm [] [⟨memory.allocated, entry⟩] (held_modify shardEq changed) ?_ ?_
  · simp [load]
  · simp [load]

theorem accounted_promote (accounted : memory.Accounted) (key : Bytes) :
    (memory.promote key).Accounted := by
  have sameHeld : ∀ shard : Shard, (shard.promote key).held = shard.held := by
    intro shard
    unfold Shard.promote Shard.held
    split
    · unfold Shard.moveToFront
      split <;> rfl
    · rfl
  cases shardEq : memory.shards[memory.shardIndex key]? with
  | none =>
    have unchanged : memory.shards.modify (memory.shardIndex key) (·.promote key) =
        memory.shards := by
      refine (modify_congr ?_).trans (modify_id memory.shards (memory.shardIndex key))
      intro shard found
      rw [shardEq] at found
      cases found
    refine accounted.of_perm [] [] ?_ (by simp [promote, updateShard])
      (by simp [promote, updateShard])
    rw [promote, updateShard, held]
    dsimp only
    rw [unchanged]
    exact List.Perm.refl _
  | some shard =>
    have changed : ([] ++ (shard.promote key).held).Perm ([] ++ shard.held) := by
      rw [sameHeld]
    refine accounted.of_perm [] [] (held_modify shardEq changed) ?_ ?_
    · simp [promote, updateShard]
    · simp [promote, updateShard]

theorem accounted_put {entry : Entry} (accounted : memory.Accounted)
    (positive : 0 < memory.shards.length) : (memory.put entry).Accounted := by
  refine accounted_load (accounted_removeAt accounted _ _) ?_ ?_
  · rw [length_remove]
    exact positive
  · rw [find_remove, if_pos rfl]

/-- Eviction of a tail that the shard's map still holds. -/
theorem accounted_evict {index : Nat} (accounted : memory.Accounted)
    (current : ∀ shard entry, memory.shards[index]? = some shard →
      shard.lruTail = some entry → shard.data.lookup entry.entry.key = some entry) :
    (memory.evict index).Accounted := by
  unfold evict
  cases shardEq : memory.shards[index]? with
  | none => exact accounted
  | some shard =>
    rw [Option.bind_some]
    cases tail : shard.lruTail with
    | none => exact accounted
    | some entry =>
      exact accounted_deleteFromShard accounted shardEq (current shard entry shardEq tail)

theorem accounted_newMemory (shardCount : Nat) : (newMemory shardCount).Accounted := by
  have nothing : (newMemory shardCount).held = [] := by
    rw [held, newMemory, List.flatMap_eq_nil_iff]
    intro shard member
    rw [List.eq_of_mem_replicate member]
    rfl
  rw [Accounted, nothing]
  exact ⟨rfl, rfl⟩

/-- Loading entries with new and distinct keys. -/
theorem accounted_loads {entries : List Entry} (accounted : memory.Accounted)
    (positive : 0 < memory.shards.length) (distinct : (entries.map (·.key)).Nodup)
    (absent : ∀ entry ∈ entries, memory.find entry.key = none) :
    (entries.foldl load memory).Accounted := by
  induction entries generalizing memory with
  | nil => exact accounted
  | cons entry rest ih =>
    rw [List.map_cons, List.nodup_cons] at distinct
    refine ih (accounted_load accounted positive
      (absent entry List.mem_cons_self)) (by rw [length_load]; exact positive)
      distinct.2 ?_
    intro other member
    have different : other.key ≠ entry.key := by
      intro same
      exact distinct.1 (List.mem_map.mpr ⟨other, member, same⟩)
    rw [find_load positive, if_neg different]
    exact absent other (List.mem_cons_of_mem entry member)

theorem accounted_replay {record : WALEntry} (accounted : memory.Accounted)
    (positive : 0 < memory.shards.length) : (memory.replay record).Accounted := by
  unfold replay
  split
  · exact accounted_put accounted positive
  · split
    · exact accounted_removeAt accounted _ _
    · exact accounted

theorem accounted_replays {records : List WALEntry} (accounted : memory.Accounted)
    (positive : 0 < memory.shards.length) :
    (records.foldl replay memory).Accounted := by
  induction records generalizing memory with
  | nil => exact accounted
  | cons record rest ih =>
    exact ih (accounted_replay accounted positive)
      (by rw [length_replay]; exact positive)

end Memory

/-! ## Where evictions take current entries -/

/-- The back end of a shard's list: going back from the tail visits distinct
entries that the map still holds, and nothing follows the tail. -/
def BackSound (shard : Shard) : Prop :=
  ∃ walk : List EntryPtr, Visits shard.prev shard.lruTail walk ∧ walk.Nodup ∧
    (∀ entry ∈ walk, shard.data.lookup entry.entry.key = some entry) ∧
    ∀ entry, shard.lruTail = some entry → shard.next entry = none

namespace BackSound

variable {shard : Shard}

theorem current (sound : BackSound shard) {entry : EntryPtr}
    (tail : shard.lruTail = some entry) :
    shard.data.lookup entry.entry.key = some entry := by
  obtain ⟨walk, visits, -, held, -⟩ := sound
  cases walk with
  | nil =>
    rw [tail] at visits
    cases visits
  | cons first rest =>
    have firstEq : entry = first := Option.some.inj (tail.symm.trans visits.1)
    exact held entry (firstEq ▸ List.mem_cons_self)

/-- An eviction leaves a sound back end. -/
theorem evictLRU (sound : BackSound shard) : BackSound shard.evictLRU := by
  obtain ⟨walk, visits, nodup, held, ended⟩ := sound
  cases tail : shard.lruTail with
  | none =>
    rw [Shard.evictLRU, tail]
    exact ⟨walk, visits, nodup, held, ended⟩
  | some entry =>
    cases walk with
    | nil =>
      rw [tail] at visits
      cases visits
    | cons first rest =>
      have firstEq : first = entry := Option.some.inj (visits.1.symm.trans tail)
      subst firstEq
      have onward : Visits shard.prev (shard.prev first) rest := visits.2
      obtain ⟨startEq, chain⟩ := visits_iff.mp onward
      have notRest : first ∉ rest := (List.nodup_cons.mp nodup).1
      have untouched : shard.prev first ≠ some first := by
        rw [startEq]
        exact fun isHead => notRest (List.mem_of_head? isHead)
      have nothingNext : redirect shard.next (shard.prev first) (shard.next first) first =
          none := by
        rw [redirect_of_ne untouched]
        exact ended first tail
      have tailEq : (shard.unlink first.entry.key first).lruTail = shard.prev first := by
        change (if redirect shard.next (shard.prev first) (shard.next first) first = none
          then redirect shard.prev
            (redirect shard.next (shard.prev first) (shard.next first) first)
            (shard.prev first) first
          else shard.lruTail) = shard.prev first
        rw [if_pos nothingNext, nothingNext]
        rfl
      have prevEq : (shard.unlink first.entry.key first).prev =
          Function.update shard.prev first none := by
        change Function.update (redirect shard.prev
          (redirect shard.next (shard.prev first) (shard.next first) first)
          (shard.prev first)) first none = _
        rw [nothingNext]
        rfl
      rw [Shard.evictLRU, tail]
      refine ⟨rest, ?_, (List.nodup_cons.mp nodup).2, ?_, ?_⟩
      · dsimp only
        rw [tailEq, prevEq]
        exact visits_iff.mpr ⟨startEq, chain_update notRest none chain⟩
      · intro other member
        have otherHeld := held other (List.mem_cons_of_mem first member)
        have different : other.entry.key ≠ first.entry.key := by
          intro same
          rw [same, held first List.mem_cons_self, Option.some.injEq] at otherHeld
          exact notRest (otherHeld ▸ member)
        exact (AList.lookup_erase_ne different).trans otherHeld
      · intro other otherTail
        dsimp only at otherTail ⊢
        rw [tailEq] at otherTail
        have different : other ≠ first := by
          rintro rfl
          exact untouched otherTail
        change Function.update (redirect shard.next (shard.prev first)
          (shard.next first)) first none other = none
        rw [Function.update_of_ne different, otherTail, redirect_self]
        exact ended first tail

end BackSound

/-! ## Runs of calls -/

/-- No eviction is needed to set a key. -/
def HasRoom (store : Store) (key : Bytes) (size : Int) : Prop :=
  store.memory.roomForEntry store.opts (store.memory.find key).isSome = true ∧
    store.memory.roomForSize store.opts size (store.memory.oldSize key) = true

/-- What keeps the counters exact: a set needs no eviction or meets shards with
sound back ends, and a directory is opened with a snapshot of distinct
keys. -/
def AccountingSafe (env : Externals) (store : Store) : StoreOp → Prop
  | .set key value _ _ _ =>
    HasRoom store key (entrySize key value) ∨ ∀ shard ∈ store.memory.shards, BackSound shard
  | .reopen opts => ∀ entries, snapshotEntries env (setDefaults opts) store.disk = .ok entries →
      (entries.map (·.key)).Nodup
  | .get _ _ _ _ => True
  | .delete _ _ => True
  | .cleanExpired _ _ => True
  | .snapshot _ _ _ _ => True
  | .close => True

/-- What holds along a run that keeps the counters exact. -/
structure Store.Inv (store : Store) : Prop where
  accounted : store.memory.Accounted
  positive : 0 < store.memory.shards.length
  valid : validateOptions store.opts = none

namespace Store

variable {env : Externals} {store : Store}

theorem maxMemory_le {opts : Options} (valid : validateOptions opts = none) :
    opts.maxMemory ≤ opts.maxMemoryMB * 2 ^ 20 := by
  have positive : 0 < opts.maxMemoryMB := by
    unfold validateOptions at valid
    split at valid
    · cases valid
    · split at valid
      · cases valid
      · omega
  have wrapped : wrapInt64 (opts.maxMemoryMB * 1024 * 1024) ≤ opts.maxMemoryMB * 1024 * 1024 :=
    wrapInt64_le (by omega)
  unfold Options.maxMemory
  omega

/-- Evictions from sound back ends keep the counters exact and the back ends
sound. -/
theorem evict_sound {memory : Memory} {index : Nat}
    (both : memory.Accounted ∧ (∀ shard ∈ memory.shards, BackSound shard)) :
    (memory.evict index).Accounted ∧
      ∀ shard ∈ (memory.evict index).shards, BackSound shard := by
  obtain ⟨accounted, sound⟩ := both
  refine ⟨Memory.accounted_evict accounted fun shard entry shardEq tail =>
    (sound shard (List.mem_of_getElem? shardEq)).current tail, ?_⟩
  intro shard member
  rw [Memory.evict_shards] at member
  obtain ⟨position, found⟩ := List.getElem?_of_mem member
  rw [List.getElem?_modify] at found
  cases before : memory.shards[position]? with
  | none => simp [before] at found
  | some old =>
    have oldSound := sound old (List.mem_of_getElem? before)
    simp only [before, Option.map_eq_map, Option.map_some, Option.some.injEq] at found
    split at found
    · exact found ▸ oldSound.evictLRU
    · exact found ▸ oldSound

/-- Making room for a set keeps the counters exact. -/
theorem ensureCapacity_accounted {key : Bytes} {size : Int} (inv : store.Inv)
    (safe : HasRoom store key size ∨ ∀ shard ∈ store.memory.shards, BackSound shard) :
    (store.memory.ensureCapacityForSet store.opts key size).1.Accounted := by
  rcases safe with room | sound
  · rw [Memory.ensureCapacityForSet_of_room room.1 room.2]
    exact inv.accounted
  · have kept : (store.memory.ensureCapacityForSet store.opts key size).1.Accounted ∧
        ∀ shard ∈ (store.memory.ensureCapacityForSet store.opts key size).1.shards,
          BackSound shard := by
      refine Memory.ensureCapacityForSet_invariant (fun memory => memory.Accounted ∧
        ∀ shard ∈ memory.shards, BackSound shard) _ _ ?_ ⟨inv.accounted, sound⟩
      exact fun before index shard entry both _ _ _ => evict_sound both
    exact kept.1

theorem ensureCapacity_positive {memory : Memory} (opts : Options) (key : Bytes)
    (size : Int) (positive : 0 < memory.shards.length) :
    0 < (memory.ensureCapacityForSet opts key size).1.shards.length := by
  refine Memory.ensureCapacityForSet_invariant (fun later => 0 < later.shards.length) _ _ ?_
    positive
  intro before index shard entry stillPositive _ _ _
  rw [Memory.length_evict]
  exact stillPositive

/-- Making room for a set leaves the key itself alone. -/
theorem ensureCapacity_find (memory : Memory) (opts : Options) (key : Bytes) (size : Int) :
    (memory.ensureCapacityForSet opts key size).1.find key = memory.find key := by
  refine Memory.ensureCapacityForSet_invariant
    (fun later => later.find key = memory.find key) _ _ ?_ rfl
  intro before index shard entry same shardEq tail different
  have unchanged : (before.evict index).find key = before.find key := by
    refine Memory.find_evict ?_
    intro other otherEntry otherEq otherTail
    rw [shardEq, Option.some.injEq] at otherEq
    subst otherEq
    rw [tail, Option.some.injEq] at otherTail
    exact otherTail ▸ different
  exact unchanged.trans same

theorem Inv.set {key value : Bytes} {ttl : Int} {now : Time} {fault : Option Nat}
    (inv : store.Inv)
    (safe : HasRoom store key (entrySize key value) ∨
      ∀ shard ∈ store.memory.shards, BackSound shard) :
    (store.set env key value ttl now fault).1.Inv := by
  have accounted := ensureCapacity_accounted inv safe
  have positive :=
    ensureCapacity_positive store.opts key (entrySize key value) inv.positive
  have outcome := Store.set_outcome env store key value ttl now fault
  generalize store.set env key value ttl now fault = result at outcome
  cases outcome with
  | refused failure => exact inv
  | full ensured | unlogged wal failure ensured =>
    rw [ensured] at accounted positive
    exact ⟨accounted, positive, inv.valid⟩
  | stored isOpen writable ensured recordEq encoded =>
    rw [ensured] at accounted positive
    refine ⟨Memory.accounted_put accounted positive, ?_, inv.valid⟩
    change 0 < (Memory.put _ _).shards.length
    rw [Memory.length_put]
    exact positive

/-- A set that returns no error leaves room and the key. -/
theorem set_capacity {key value : Bytes} {ttl : Int} {now : Time} {fault : Option Nat}
    {after : Store} (inv : store.Inv)
    (returned : store.set env key value ttl now fault = (after, none)) :
    after.memory.entries ≤ after.opts.maxEntries ∧
      after.memory.memoryUsage ≤ after.opts.maxMemoryMB * 2 ^ 20 ∧
      ∃ found, after.memory.find key = some found ∧ found.entry.value = value := by
  have positive :=
    ensureCapacity_positive store.opts key (entrySize key value) inv.positive
  have sameFind := ensureCapacity_find store.memory store.opts key (entrySize key value)
  have outcome := Store.set_outcome env store key value ttl now fault
  rw [returned] at outcome
  cases outcome with
  | @stored memory record data isOpen writable ensured recordEq encoded =>
    rw [ensured] at positive sameFind
    obtain ⟨entryRoom, sizeRoom⟩ := Memory.ensureCapacityForSet_room ensured
    have keyEq : record.toEntry.key = key := by rw [recordEq]; rfl
    have sizeEq : record.toEntry.size = entrySize key value := by rw [recordEq]; rfl
    have valueEq : record.toEntry.value = value := by rw [recordEq]; rfl
    have sameSize : memory.oldSize key = store.memory.oldSize key := by
      rw [Memory.oldSize, sameFind, Memory.oldSize]
    obtain ⟨entriesEq, usageEq⟩ := Memory.put_counters memory record.toEntry
    rw [keyEq] at entriesEq usageEq
    refine ⟨?_, ?_, ⟨memory.allocated, record.toEntry⟩, ?_, valueEq⟩
    · change (memory.put record.toEntry).entries ≤ store.opts.maxEntries
      rw [entriesEq, sameFind]
      unfold Memory.roomForEntry at entryRoom
      split
      · rename_i replacing
        rw [if_pos replacing, decide_eq_true_eq] at entryRoom
        exact entryRoom
      · rename_i new
        rw [if_neg new, decide_eq_true_eq] at entryRoom
        omega
    · change (memory.put record.toEntry).memoryUsage ≤ store.opts.maxMemoryMB * 2 ^ 20
      rw [Memory.roomForSize, decide_eq_true_eq, Memory.memoryAfterSet] at sizeRoom
      have maxPositive := maxMemory_le inv.valid
      rw [usageEq, sizeEq, sameSize]
      omega
    · change (memory.put record.toEntry).find key = _
      rw [Memory.find_put positive, if_pos keyEq.symm]

theorem Inv.get (inv : store.Inv) (key : Bytes) (now : Time) (wait : Nat) (locked : Bool) :
    (store.get key now wait locked).1.Inv := by
  obtain ⟨optsEq, memoryEq⟩ := store.get_memory key now wait locked
  refine ⟨?_, ?_, optsEq ▸ inv.valid⟩
  · rcases memoryEq with same | removed | promoted
    · exact same ▸ inv.accounted
    · exact removed ▸ Memory.accounted_removeAt inv.accounted _ _
    · exact promoted ▸ Memory.accounted_promote inv.accounted _
  · rcases memoryEq with same | removed | promoted
    · exact same ▸ inv.positive
    · rw [removed, Memory.length_remove]
      exact inv.positive
    · rw [promoted, Memory.promote, Memory.updateShard, List.length_modify]
      exact inv.positive

theorem Inv.delete (inv : store.Inv) (key : Bytes) (fault : Option Nat) :
    (store.delete env key fault).1.Inv := by
  have outcome := Store.delete_outcome env store key fault
  generalize store.delete env key fault = result at outcome
  cases outcome with
  | refused failure => exact inv
  | unlogged wal failure | missing wal walSize failure absent =>
    exact ⟨inv.accounted, inv.positive, inv.valid⟩
  | deleted isOpen writable recordEq encoded present =>
    refine ⟨Memory.accounted_removeAt inv.accounted _ _, ?_, inv.valid⟩
    change 0 < (store.memory.remove key).shards.length
    rw [Memory.length_remove]
    exact inv.positive

theorem Inv.cleanExpired (inv : store.Inv) (now : Time) (order : MapOrder EntryPtr) :
    (store.cleanExpired now order).Inv := by
  have kept : (store.cleanExpired now order).memory.Accounted ∧
      0 < (store.cleanExpired now order).memory.shards.length := by
    refine Store.cleanExpired_invariant
      (fun memory => memory.Accounted ∧ 0 < memory.shards.length) ?_ now order
      ⟨inv.accounted, inv.positive⟩
    intro before index key both
    refine ⟨Memory.accounted_removeAt both.1 index key, ?_⟩
    rw [Memory.length_removeAt]
    exact both.2
  exact ⟨kept.1, kept.2, inv.valid⟩

theorem Inv.snapshot (inv : store.Inv) (created now : Time) (order : MapOrder EntryPtr)
    (fault : Option SnapshotFault) :
    (store.snapshot env created now order fault).1.Inv := by
  obtain ⟨memoryEq, optsEq⟩ := store.snapshot_memory env created now order fault
  exact ⟨memoryEq ▸ inv.accounted, memoryEq ▸ inv.positive, optsEq ▸ inv.valid⟩

/-- A store opened on a snapshot of distinct keys. -/
theorem inv_newKVStore {opts : Options} {disk : Disk} {opened : Store}
    (distinct : ∀ entries, snapshotEntries env (setDefaults opts) disk = .ok entries →
      (entries.map (·.key)).Nodup)
    (success : newKVStore env opts disk = .ok opened) : opened.Inv := by
  obtain ⟨valid, entries, records, loaded, -, openedEq⟩ := newKVStore_ok success
  have fresh : 0 < (newMemory (setDefaults opts).shardCount.toNat).shards.length := by
    rw [newMemory, List.length_replicate]
    exact shardCount_positive valid
  have loadedPositive : 0 < (entries.foldl Memory.load
      (newMemory (setDefaults opts).shardCount.toNat)).shards.length := by
    rw [Memory.length_loads]
    exact fresh
  have accounted := Memory.accounted_loads (Memory.accounted_newMemory _) fresh
    (distinct entries loaded) fun entry _ => Memory.find_newMemory _ _
  rw [openedEq]
  refine ⟨Memory.accounted_replays accounted loadedPositive, ?_, valid⟩
  change 0 < (records.foldl Memory.replay _).shards.length
  rw [Memory.length_replays]
  exact loadedPositive

/-- One step: a call that meets the condition keeps the counters exact. -/
theorem Inv.apply (inv : store.Inv) {op : StoreOp} (safe : AccountingSafe env store op) :
    (store.apply env op).1.Inv := by
  cases op with
  | set key value ttl now fault => exact inv.set safe
  | get key now wait locked => exact inv.get key now wait locked
  | delete key fault => exact inv.delete key fault
  | cleanExpired now order => exact inv.cleanExpired now order
  | snapshot created now order fault => exact inv.snapshot created now order fault
  | close => exact ⟨inv.accounted, inv.positive, inv.valid⟩
  | reopen opts =>
    simp only [Store.apply]
    cases success : newKVStore env opts store.disk with
    | ok opened => exact inv_newKVStore safe success
    | error failure => exact ⟨inv.accounted, inv.positive, inv.valid⟩

theorem inv_unopened (disk : Disk) : (Store.unopened disk).Inv := by
  have valid : validateOptions (setDefaults {}) = none := by decide
  exact ⟨Memory.accounted_newMemory 1, Nat.zero_lt_one, valid⟩

end Store

/-- In every run of calls on a directory whose steps all meet the condition, the
counters agree with the shards in every state reached; and a set from any such
state that returns no error leaves the entry count and the memory usage within
their bounds and the key with its value. -/
theorem accounted_of_safe (env : Externals) (disk : Disk) (ops : List StoreOp)
    (safe : (storeMachine env).Meets (AccountingSafe env) (Store.unopened disk) ops)
    (state : Store)
    (reached : (storeMachine env).Reaches (Store.unopened disk) ops state) :
    state.memory.Accounted ∧
      ∀ key value ttl now fault after,
        state.set env key value ttl now fault = (after, none) →
        after.memory.entries ≤ after.opts.maxEntries ∧
          after.memory.memoryUsage ≤ after.opts.maxMemoryMB * 2 ^ 20 ∧
          ∃ found, after.memory.find key = some found ∧ found.entry.value = value := by
  have inv : state.Inv := by
    refine Machine.reaches_invariant ?_ (Store.inv_unopened disk) safe reached
    intro before op next out beforeInv met stepEq
    have nextEq : (before.apply env op).1 = next :=
      congrArg Prod.fst (Option.some.inj stepEq)
    exact nextEq ▸ beforeInv.apply met
  exact ⟨inv.accounted, fun key value ttl now fault after returned =>
    Store.set_capacity inv returned⟩

/-- Room for one entry, in one shard. -/
def tinyOptions : Options := { maxEntries := 1, maxMemoryMB := 1, shardCount := 1 }

/-- Two sets, the second of which evicts the entry of the first. -/
def tinyOps : List StoreOp :=
  [.reopen tinyOptions, .set (ascii "a") [1] 0 0 none, .set (ascii "b") [2] 0 0 none]

/-- The only entry after the first set. -/
def tinyEntry : EntryPtr :=
  ⟨0, { key := ascii "a", value := [1], size := 66, version := 1 }⟩

theorem tinyOps_safe :
    (storeMachine uncalled).Meets (AccountingSafe uncalled) (Store.unopened {}) tinyOps := by
  have noSnapshot : ∀ entries, snapshotEntries uncalled (setDefaults tinyOptions) {} =
      .ok entries → (entries.map (·.key)).Nodup := by
    intro entries loaded
    have nothing : entries = [] := (Except.ok.inj loaded).symm
    rw [nothing]
    exact List.nodup_nil
  have room : HasRoom (Store.after uncalled {} (tinyOps.take 1)) (ascii "a")
      (entrySize (ascii "a") [1]) := by
    unfold HasRoom
    decide +kernel
  have single : ∀ shard ∈ (Store.after uncalled {} (tinyOps.take 2)).memory.shards,
      Visits shard.prev shard.lruTail [tinyEntry] ∧
      shard.data.lookup tinyEntry.entry.key = some tinyEntry ∧
      shard.lruTail = some tinyEntry ∧ shard.next tinyEntry = none := by
    decide +kernel
  have sound : ∀ shard ∈ (Store.after uncalled {} (tinyOps.take 2)).memory.shards,
      BackSound shard := by
    intro shard member
    obtain ⟨visits, found, tail, ended⟩ := single shard member
    refine ⟨[tinyEntry], visits, List.nodup_singleton _, ?_, ?_⟩
    · intro entry isEntry
      rw [List.mem_singleton.mp isEntry]
      exact found
    · intro entry isTail
      rw [tail, Option.some.injEq] at isTail
      exact isTail ▸ ended
  exact storeMachine_meets_cons.mpr ⟨noSnapshot, storeMachine_meets_cons.mpr
    ⟨Or.inl room, storeMachine_meets_cons.mpr ⟨Or.inr sound, trivial⟩⟩⟩

/-- A run with an eviction that meets the condition. -/
theorem accounted_of_safe_tiny :
    (storeMachine uncalled).Meets (AccountingSafe uncalled) (Store.unopened {}) tinyOps ∧
      (Store.after uncalled {} tinyOps).memory.evictions = 1 ∧
      (Store.after uncalled {} tinyOps).memory.Accounted :=
  ⟨tinyOps_safe, by decide +kernel,
    (accounted_of_safe uncalled {} tinyOps tinyOps_safe _ (reaches_after _ _ _)).1⟩

/-- The directory is opened again, which restores both entries from the log. -/
def tinyReopened : Store := Store.after uncalled {} (tinyOps ++ [.reopen tinyOptions])

/-- A third set. -/
def tinyOverfull : Store := (tinyReopened.set uncalled (ascii "c") [3] 0 0 none).1

/-- The third set evicts the entry of `b` twice, once when it is no longer
there: it returns no error with an entry count of one and two keys held. -/
theorem set_evicts_stale :
    (storeMachine uncalled).Reaches (Store.unopened {})
        (tinyOps ++ [.reopen tinyOptions, .set (ascii "c") [3] 0 0 none]) tinyOverfull ∧
      (tinyReopened.set uncalled (ascii "c") [3] 0 0 none).2 = none ∧
      tinyOverfull.memory.entries = 1 ∧
      tinyOverfull.memory.held.map (·.entry.key) = [ascii "c", ascii "a"] ∧
      ¬ tinyOverfull.memory.Accounted := by
  refine ⟨?_, ?_, ?_, ?_, ?_⟩
  · have reached := reaches_after uncalled {}
      (tinyOps ++ [.reopen tinyOptions, .set (ascii "c") [3] 0 0 none])
    rw [Store.after, List.foldl_append] at reached
    rw [tinyOverfull, tinyReopened, Store.after, List.foldl_append]
    exact reached
  · decide +kernel
  · decide +kernel
  · decide +kernel
  · decide +kernel

end Plumego.KvEngine
