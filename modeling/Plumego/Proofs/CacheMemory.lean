/-
Module: Plumego.Proofs.CacheMemory
Purpose: The counters of the in-memory cache agree with its items along every
  interleaving, and failing calls only drop expired items.
Trusted boundary: none
Main exports: payload, Accounted, Drops, MemoryCache.live, cache_accounted
-/
import Mathlib.Algebra.BigOperators.Group.List.Basic
import Plumego.Cache.Memory

namespace Plumego.Cache

open Go Lib

/-! ## The counters -/

/-- The lengths of all values. -/
def payload (store : StringMap Item) : Nat :=
  ((values store).map fun item => item.value.length).sum

theorem payload_erase {store : StringMap Item} {key : Bytes} {item : Item}
    (found : store.lookup key = some item) :
    payload store = item.value.length + payload (store.erase key) := by
  have perm := (values_erase_perm found).map fun item => item.value.length
  unfold payload
  rw [perm.sum_eq, List.map_cons, List.sum_cons]

theorem payload_insert {store : StringMap Item} {key : Bytes} (item : Item)
    (absent : store.lookup key = none) :
    payload (store.insert key item) = item.value.length + payload store := by
  have perm := (values_insert_perm item absent).map fun item => item.value.length
  unfold payload
  rw [perm.sum_eq, List.map_cons, List.sum_cons]

/-- The counters agree with the items, within the limit. -/
structure Accounted (cache : MemoryCache) : Prop where
  size : cache.size = cache.store.keys.length
  memory : cache.memory = payload cache.store
  limit : 0 < cache.config.maxMemoryUsage → cache.memory ≤ cache.config.maxMemoryUsage

namespace Accounted

variable {cache next : MemoryCache} {key : Bytes} {item : Item}

/-- A step that leaves items and counters alone. -/
theorem same (accounted : Accounted cache) (store : next.store = cache.store)
    (size : next.size = cache.size) (memory : next.memory = cache.memory)
    (config : next.config = cache.config) : Accounted next where
  size := by rw [size, store, accounted.size]
  memory := by rw [memory, store, accounted.memory]
  limit := by
    rw [memory, config]
    exact accounted.limit

theorem tick (accounted : Accounted cache) : Accounted cache.tick :=
  accounted.same rfl rfl rfl rfl

/-- Taking an item away with its share of the counters. -/
theorem erase (accounted : Accounted cache) (found : cache.store.lookup key = some item) :
    Accounted (({ cache with store := cache.store.erase key } : MemoryCache).adjustStoredValue (-1)
      (-(item.value.length : Int))) := by
  have sum := payload_erase found
  have count : cache.store.keys.length = 1 + (cache.store.erase key).keys.length := by
    have perm := (values_erase_perm found).length_eq
    rw [List.length_cons, length_values, length_values] at perm
    omega
  have size := accounted.size
  have memory := accounted.memory
  have memoryEq : (({ cache with store := cache.store.erase key } : MemoryCache).adjustStoredValue
      (-1) (-(item.value.length : Int))).memory = payload (cache.store.erase key) := by
    simp only [MemoryCache.adjustStoredValue]
    split
    · rw [if_pos (by omega)]
      omega
    · omega
  refine ⟨?_, memoryEq, fun positive => ?_⟩
  · simp only [MemoryCache.adjustStoredValue]
    rw [if_neg (by omega)]
    omega
  · have limit := accounted.limit positive
    rw [memoryEq]
    exact Nat.le_trans (by omega) limit

/-- Storing an item over the one that was there, if any, within the limit. -/
theorem store (accounted : Accounted cache) {value : Bytes} {expiration : Time}
    (fits : cache.checkMemoryLimit value.length
      (((cache.store.lookup key).map fun item => item.value.length).getD 0) = none) :
    Accounted (({ cache with
      store := cache.store.insert key { value, expiration } } : MemoryCache).adjustStoredValue
        (if (cache.store.lookup key).isSome then 0 else 1)
        ((value.length : Int) -
          (((cache.store.lookup key).map fun item => item.value.length).getD 0 : Nat))) := by
  have size := accounted.size
  have memory := accounted.memory
  have within : ∀ existingSize, existingSize ≤ cache.memory →
      cache.checkMemoryLimit value.length existingSize = none →
      0 < cache.config.maxMemoryUsage →
      cache.memory - existingSize + value.length ≤ cache.config.maxMemoryUsage := by
    intro existingSize small noError positive
    simp only [MemoryCache.checkMemoryLimit] at noError
    rw [if_neg (by omega), if_pos small] at noError
    split at noError
    · cases noError
    · omega
  cases found : cache.store.lookup key with
  | none =>
    rw [found] at fits
    have sum := payload_insert { value, expiration } found
    have count : (cache.store.insert key { value, expiration }).keys.length =
        1 + cache.store.keys.length := by
      have perm := (values_insert_perm { value, expiration } found).length_eq
      rw [List.length_cons, length_values, length_values] at perm
      omega
    have limit := within 0 (Nat.zero_le _) fits
    simp only [Option.isSome_none, Bool.false_eq_true, if_false, Option.map_none,
      Option.getD_none, MemoryCache.adjustStoredValue]
    refine ⟨?_, ?_, fun positive => ?_⟩
    · dsimp only
      rw [if_neg (by omega)]
      omega
    · dsimp only at sum ⊢
      rw [if_neg (by omega)]
      omega
    · have bound := limit positive
      dsimp only
      rw [if_neg (by omega)]
      omega
  | some item =>
    rw [found] at fits
    have present := payload_erase found
    have erased : (cache.store.erase key).lookup key = none := AList.lookup_erase ..
    have sum := payload_insert { value, expiration } erased
    have insertEq : (cache.store.erase key).insert key { value, expiration } =
        cache.store.insert key { value, expiration } := insert_erase ..
    have count : (cache.store.insert key { value, expiration }).keys.length =
        cache.store.keys.length := by
      have before := (values_erase_perm found).length_eq
      have after := (values_insert_perm { value, expiration } erased).length_eq
      rw [List.length_cons, length_values, length_values] at before after
      rw [insertEq] at after
      omega
    rw [insertEq] at sum
    have limit := within item.value.length (by omega) fits
    simp only [Option.isSome_some, if_true, Option.map_some, Option.getD_some,
      MemoryCache.adjustStoredValue]
    have memoryEq : (if (value.length : Int) - (item.value.length : Nat) < 0 then
        if ((value.length : Int) - (item.value.length : Nat)).natAbs ≤ cache.memory then
          cache.memory - ((value.length : Int) - (item.value.length : Nat)).natAbs
        else 0
      else cache.memory + ((value.length : Int) - (item.value.length : Nat)).toNat) =
        cache.memory - item.value.length + value.length := by
      split
      · rw [if_pos (by omega)]
        omega
      · omega
    refine ⟨?_, ?_, fun positive => ?_⟩
    · dsimp only
      rw [if_neg (by omega)]
      omega
    · dsimp only at sum ⊢
      rw [memoryEq]
      omega
    · have bound := limit positive
      dsimp only
      rw [memoryEq]
      exact bound

end Accounted

/-! ## Dropping expired items -/

/-- The unexpired item of a key. -/
def MemoryCache.live (cache : MemoryCache) (now : Time) (key : Bytes) : Option Item :=
  (cache.store.lookup key).filter fun item => !item.expiredAt now

/-- Only items that were expired at a clock reading made so far are gone. -/
structure Drops (clock : Nat → Time) (cache next : MemoryCache) : Prop where
  config : next.config = cache.config
  readings : cache.readings ≤ next.readings
  items : ∀ key, next.store.lookup key = cache.store.lookup key ∨
    (next.store.lookup key = none ∧ ∃ item reading, cache.store.lookup key = some item ∧
      reading < next.readings ∧ item.expiredAt (clock reading) = true)

theorem Item.expiredAt_mono {item : Item} {earlier later : Int} (order : earlier ≤ later)
    (expired : item.expiredAt earlier = true) : item.expiredAt later = true := by
  unfold Item.expiredAt at expired ⊢
  simp only [Bool.and_eq_true, decide_eq_true_eq] at expired ⊢
  exact ⟨expired.1, Int.le_trans expired.2 order⟩

namespace Drops

variable {clock : Nat → Time} {cache middle next : MemoryCache}

theorem same (store : next.store = cache.store) (readings : cache.readings ≤ next.readings)
    (config : next.config = cache.config) : Drops clock cache next :=
  ⟨config, readings, fun _ => Or.inl (by rw [store])⟩

theorem refl (cache : MemoryCache) : Drops clock cache cache :=
  same rfl (Nat.le_refl _) rfl

theorem tick (cache : MemoryCache) : Drops clock cache cache.tick :=
  same rfl (Nat.le_succ _) rfl

theorem trans (first : Drops clock cache middle) (second : Drops clock middle next) :
    Drops clock cache next where
  config := second.config.trans first.config
  readings := Nat.le_trans first.readings second.readings
  items := by
    intro key
    rcases second.items key with kept | ⟨gone, item, reading, found, early, expired⟩
    · rcases first.items key with same | ⟨gone, item, reading, found, early, expired⟩
      · exact Or.inl (kept.trans same)
      · exact Or.inr ⟨kept.trans gone, item, reading, found,
          Nat.lt_of_lt_of_le early second.readings, expired⟩
    · rcases first.items key with same | ⟨missing, _⟩
      · exact Or.inr ⟨gone, item, reading, same.symm.trans found, early, expired⟩
      · rw [missing] at found
        cases found

/-- From the last clock reading on, the live items are the same. -/
theorem live_eq (forward : NonDecreasing clock) (drops : Drops clock cache next) {reading : Nat}
    (last : next.readings ≤ reading + 1) : next.live (clock reading) = cache.live (clock reading) := by
  funext key
  unfold MemoryCache.live
  rcases drops.items key with same | ⟨gone, item, early, found, made, expired⟩
  · rw [same]
  · have stillExpired : item.expiredAt (clock reading) = true :=
      Item.expiredAt_mono (forward (by omega)) expired
    rw [gone, found]
    simp [Option.filter, stillExpired]

end Drops

/-! ## The sections -/

/-- What a section leaves: the counters agree, the configuration is the same,
and where its call fails only expired items are gone. -/
structure Keeps (clock : Nat → Time) (cache next : MemoryCache) (failed : Prop) : Prop where
  accounted : Accounted next
  config : next.config = cache.config
  drops : failed → Drops clock cache next

section Sections

variable {clock : Nat → Time} {cache middle next : MemoryCache} {failed : Prop}

/-- A section that drops nothing but expired items. -/
theorem Keeps.of_drops (accounted : Accounted next) (drops : Drops clock cache next) :
    Keeps clock cache next failed :=
  ⟨accounted, drops.config, fun _ => drops⟩

theorem Keeps.refl (accounted : Accounted cache) : Keeps clock cache cache failed :=
  Keeps.of_drops accounted (Drops.refl cache)

/-- Sections after one that drops nothing but expired items. -/
theorem Keeps.after (first : Drops clock cache middle) (second : Keeps clock middle next failed) :
    Keeps clock cache next failed :=
  ⟨second.accounted, second.config.trans first.config, fun isFailed =>
    first.trans (second.drops isFailed)⟩

/-- Removing an expired item keeps the counters and drops nothing else. -/
theorem removeExpiredItemLocked_keeps (clock : Nat → Time) (accounted : Accounted cache)
    (key : Bytes) (item : Item) :
    Accounted (cache.removeExpiredItemLocked clock key item) ∧
      Drops clock cache (cache.removeExpiredItemLocked clock key item) := by
  unfold MemoryCache.removeExpiredItemLocked
  split
  · rename_i expired
    split
    · exact ⟨accounted.tick, Drops.tick cache⟩
    · rename_i current found
      split
      · exact ⟨accounted.tick, Drops.tick cache⟩
      · rename_i unchanged
        rw [not_or, not_not, not_not] at unchanged
        have sameItem : current = item := by
          obtain ⟨value, expiration⟩ := current
          obtain ⟨otherValue, otherExpiration⟩ := item
          simp only [Item.mk.injEq]
          exact ⟨unchanged.2, unchanged.1⟩
        subst sameItem
        refine ⟨accounted.tick.erase found, rfl, Nat.le_succ _, fun other => ?_⟩
        by_cases same : other = key
        · subst same
          exact Or.inr ⟨AList.lookup_erase .., current, cache.readings, found,
            Nat.lt_succ_self _, expired⟩
        · exact Or.inl (AList.lookup_erase_ne same)
  · exact ⟨accounted.tick, Drops.tick cache⟩

/-- With a clock that never goes back an item found expired is removed, and what
is left is what the caller takes for the existing item. -/
theorem loadLive_keeps (forward : NonDecreasing clock) (accounted : Accounted cache)
    (key : Bytes) :
    Accounted (cache.loadLive clock key).1 ∧ Drops clock cache (cache.loadLive clock key).1 ∧
      (cache.loadLive clock key).1.store.lookup key = (cache.loadLive clock key).2 := by
  unfold MemoryCache.loadLive
  cases found : cache.store.lookup key with
  | none => exact ⟨accounted, Drops.refl cache, found⟩
  | some item =>
    dsimp only
    split
    · rename_i expired
      obtain ⟨kept, drops⟩ := removeExpiredItemLocked_keeps clock accounted.tick key item
      refine ⟨kept, (Drops.tick cache).trans drops, ?_⟩
      have expiredAgain : item.expiredAt (cache.tick.now clock) = true :=
        Item.expiredAt_mono (forward (Nat.le_succ _)) expired
      have foundAgain : cache.tick.store.lookup key = some item := found
      unfold MemoryCache.removeExpiredItemLocked
      rw [if_pos expiredAgain, foundAgain]
      dsimp only
      rw [if_neg (by simp)]
      exact AList.lookup_erase ..
    · exact ⟨accounted.tick, Drops.tick cache, found⟩

theorem setLocked_keeps (forward : NonDecreasing clock) (accounted : Accounted cache)
    (key value : Bytes) (expiration : Time) :
    Keeps clock cache (cache.setLockedWithExpiration clock key value expiration).1
      ((cache.setLockedWithExpiration clock key value expiration).2 ≠ none) := by
  unfold MemoryCache.setLockedWithExpiration
  obtain ⟨kept, drops, existingEq⟩ := loadLive_keeps forward accounted key
  generalize cache.loadLive clock key = result at kept drops existingEq ⊢
  obtain ⟨loaded, existing⟩ := result
  dsimp only at kept drops existingEq ⊢
  subst existingEq
  cases fits : loaded.checkMemoryLimit value.length
      ((Option.map (fun item => item.value.length) (loaded.store.lookup key)).getD 0) with
  | some failure => exact Keeps.of_drops kept drops
  | none => exact ⟨kept.store fits, drops.config, fun noError => absurd rfl noError⟩

theorem set_keeps (forward : NonDecreasing clock) (accounted : Accounted cache) (ctx : Context)
    (key value : Bytes) (ttl : Int) :
    Keeps clock cache (cache.set clock ctx key value ttl).1
      ((cache.set clock ctx key value ttl).2 ≠ none) := by
  unfold MemoryCache.set
  cases cache.writeErr ctx key with
  | some failure => exact Keeps.refl accounted
  | none => exact (setLocked_keeps forward accounted.tick ..).after (Drops.tick cache)

theorem delete_keeps (accounted : Accounted cache) (ctx : Context) (key : Bytes) :
    Keeps clock cache (cache.delete ctx key).1 ((cache.delete ctx key).2 ≠ none) := by
  unfold MemoryCache.delete
  cases cache.writeErr ctx key with
  | some failure => exact Keeps.refl accounted
  | none =>
    dsimp only
    cases found : cache.store.lookup key with
    | none => exact Keeps.refl accounted
    | some item => exact ⟨accounted.erase found, rfl, fun noError => absurd rfl noError⟩

/-- Clearing takes the visited items away one by one. -/
theorem clearEntries_keeps {entries : List (Bytes × Item)} (accounted : Accounted cache)
    (distinct : (entries.map Prod.fst).Nodup)
    (present : ∀ entry ∈ entries, cache.store.lookup entry.1 = some entry.2) :
    Accounted (entries.foldl MemoryCache.clearEntry cache) ∧
      (entries.foldl MemoryCache.clearEntry cache).config = cache.config := by
  induction entries generalizing cache with
  | nil => exact ⟨accounted, rfl⟩
  | cons entry rest ih =>
    rw [List.map_cons, List.nodup_cons] at distinct
    rw [List.foldl_cons]
    refine ih (accounted.erase (present entry List.mem_cons_self)) distinct.2 ?_
    intro other member
    have different : other.1 ≠ entry.1 := by
      intro same
      exact distinct.1 (same ▸ List.mem_map_of_mem member)
    exact (AList.lookup_erase_ne different).trans
      (present other (List.mem_cons_of_mem entry member))

theorem clear_keeps (accounted : Accounted cache) (ctx : Context) :
    Keeps clock cache (cache.clear ctx).1 ((cache.clear ctx).2 ≠ none) := by
  unfold MemoryCache.clear
  cases (cache.operationErr (ctx 0)).or (cache.operationErr (ctx 1)) with
  | some failure => exact Keeps.refl accounted
  | none =>
    obtain ⟨kept, config⟩ := clearEntries_keeps accounted (nodup_pairs_keys cache.store)
      fun entry member => mem_pairs.mp member
    exact ⟨kept, config, fun noError => absurd rfl noError⟩

theorem incr_keeps (forward : NonDecreasing clock) (accounted : Accounted cache)
    (gob : Bytes → Option Int) (ctx : Context) (key : Bytes) (delta : Int) :
    Keeps clock cache (cache.incr clock gob ctx key delta).1
      (∃ failure, (cache.incr clock gob ctx key delta).2 = .error failure) := by
  unfold MemoryCache.incr
  cases cache.writeErr ctx key with
  | some failure => exact Keeps.refl accounted
  | none =>
    dsimp only
    obtain ⟨kept, drops, _⟩ := loadLive_keeps forward accounted.tick key
    generalize cache.tick.loadLive clock key = result at kept drops ⊢
    obtain ⟨loaded, existing⟩ := result
    dsimp only at kept drops ⊢
    have dropped := (Drops.tick cache).trans drops
    cases existing.elim (some 0) fun item => MemoryCache.decodeInt64 gob item.value with
    | none => exact Keeps.of_drops kept dropped
    | some current =>
      dsimp only
      cases MemoryCache.addInt64 current delta with
      | error failure => exact Keeps.of_drops kept dropped
      | ok value =>
        dsimp only
        have stored := setLocked_keeps forward kept key (formatInt value)
          ((existing.map Item.expiration).getD
            (cache.expirationForTTL 0 (cache.now clock)))
        generalize loaded.setLockedWithExpiration clock key (formatInt value)
          ((existing.map Item.expiration).getD
            (cache.expirationForTTL 0 (cache.now clock))) = outcome at stored ⊢
        obtain ⟨after, failure⟩ := outcome
        cases failure with
        | some failure =>
          exact Keeps.of_drops stored.accounted (dropped.trans (stored.drops (by simp)))
        | none =>
          refine ⟨stored.accounted, stored.config.trans dropped.config, ?_⟩
          rintro ⟨failure, noError⟩
          cases noError

theorem decr_keeps (forward : NonDecreasing clock) (accounted : Accounted cache)
    (gob : Bytes → Option Int) (ctx : Context) (key : Bytes) (delta : Int) :
    Keeps clock cache (cache.decr clock gob ctx key delta).1
      (∃ failure, (cache.decr clock gob ctx key delta).2 = .error failure) := by
  unfold MemoryCache.decr
  split
  · exact Keeps.refl accounted
  · exact incr_keeps forward accounted gob ctx key (-delta)

theorem append_keeps (forward : NonDecreasing clock) (accounted : Accounted cache)
    (ctx : Context) (key data : Bytes) :
    Keeps clock cache (cache.append clock ctx key data).1
      ((cache.append clock ctx key data).2 ≠ none) := by
  unfold MemoryCache.append
  cases cache.writeErr ctx key with
  | some failure => exact Keeps.refl accounted
  | none =>
    dsimp only
    obtain ⟨kept, drops, _⟩ := loadLive_keeps forward accounted.tick key
    generalize cache.tick.loadLive clock key = result at kept drops ⊢
    obtain ⟨loaded, existing⟩ := result
    exact (setLocked_keeps forward kept ..).after ((Drops.tick cache).trans drops)

/-- Queueing a removal changes neither items nor counters. -/
theorem awaitRemoval_keeps (accounted : Accounted cache) (key : Bytes) (item : Item) :
    Keeps clock cache (cache.awaitRemoval clock key item) failed := by
  unfold MemoryCache.awaitRemoval
  split
  · exact Keeps.of_drops (accounted.same rfl rfl rfl rfl) (Drops.same rfl (Nat.le_succ _) rfl)
  · exact Keeps.of_drops accounted.tick (Drops.tick cache)

theorem get_keeps (accounted : Accounted cache) (ctx : Context) (key : Bytes) :
    Keeps clock cache (cache.get clock ctx key).1 failed := by
  unfold MemoryCache.get
  cases cache.readErr ctx key with
  | some failure => exact Keeps.refl accounted
  | none =>
    dsimp only
    cases cache.store.lookup key with
    | none => exact Keeps.refl accounted
    | some item =>
      dsimp only
      split
      · exact (awaitRemoval_keeps accounted.tick key item).after (Drops.tick cache)
      · exact Keeps.of_drops accounted.tick (Drops.tick cache)

/-- `Exists` does to the cache what `Get` does. -/
theorem existsKey_fst (ctx : Context) (key : Bytes) :
    (cache.existsKey clock ctx key).1 = (cache.get clock ctx key).1 := by
  unfold MemoryCache.existsKey MemoryCache.get
  cases cache.readErr ctx key with
  | some failure => rfl
  | none =>
    cases cache.store.lookup key with
    | none => rfl
    | some item =>
      dsimp only
      split
      · rfl
      · rfl

theorem existsKey_keeps (accounted : Accounted cache) (ctx : Context) (key : Bytes) :
    Keeps clock cache (cache.existsKey clock ctx key).1 failed :=
  existsKey_fst ctx key ▸ get_keeps accounted ctx key

theorem visit_keeps (accounted : Accounted cache) (key : Bytes) :
    Keeps clock cache (cache.visit clock key) failed := by
  unfold MemoryCache.visit
  cases cache.store.lookup key with
  | none => exact Keeps.refl accounted
  | some item => exact awaitRemoval_keeps accounted key item

theorem removePending_keeps (accounted : Accounted cache) {index : Nat}
    (removed : cache.removePending clock index = some next) : Keeps clock cache next failed := by
  unfold MemoryCache.removePending at removed
  cases found : cache.pending[index]? with
  | none =>
    rw [found] at removed
    cases removed
  | some waiting =>
    obtain ⟨key, item⟩ := waiting
    rw [found] at removed
    have nextEq := Option.some.inj removed
    have taken : Accounted { cache with pending := cache.pending.eraseIdx index } :=
      accounted.same rfl rfl rfl rfl
    have taking : Drops clock cache { cache with pending := cache.pending.eraseIdx index } :=
      Drops.same rfl (Nat.le_refl _) rfl
    obtain ⟨kept, drops⟩ := removeExpiredItemLocked_keeps clock taken key item
    rw [← nextEq]
    exact Keeps.of_drops kept (taking.trans drops)

/-- The call of a section failed, or it returns nothing. -/
def Result.Quiet (result : Result) : Prop := result.failed = true ∨ result = .silent

theorem Result.Quiet.done {failure : Option GoError} (quiet : (Result.done failure).Quiet) :
    failure ≠ none := by
  rintro rfl
  rcases quiet with isFailed | isSilent
  · cases isFailed
  · cases isSilent

theorem Result.Quiet.number {result : Except GoError Int} (quiet : (Result.number result).Quiet) :
    ∃ failure, result = .error failure := by
  cases result with
  | error failure => exact ⟨failure, rfl⟩
  | ok value =>
    rcases quiet with isFailed | isSilent
    · cases isFailed
    · cases isSilent

/-- Every section keeps the counters, and drops only expired items where its call
fails or returns nothing. -/
theorem step_keeps (forward : NonDecreasing clock) (accounted : Accounted cache)
    (gob : Bytes → Option Int) (step : Section) {result : Result}
    (stepEq : (cacheMachine gob clock).step cache step = some (next, result)) :
    Keeps clock cache next result.Quiet := by
  cases step with
  | get ctx key =>
    cases stepEq
    exact get_keeps accounted ctx key
  | existsKey ctx key =>
    cases stepEq
    exact existsKey_keeps accounted ctx key
  | set ctx key value ttl =>
    cases stepEq
    have kept := set_keeps forward accounted ctx key value ttl
    exact ⟨kept.accounted, kept.config, fun quiet => kept.drops quiet.done⟩
  | delete ctx key =>
    cases stepEq
    have kept : Keeps clock cache _ _ := delete_keeps accounted ctx key
    exact ⟨kept.accounted, kept.config, fun quiet => kept.drops quiet.done⟩
  | clear ctx =>
    cases stepEq
    have kept : Keeps clock cache _ _ := clear_keeps accounted ctx
    exact ⟨kept.accounted, kept.config, fun quiet => kept.drops quiet.done⟩
  | incr ctx key delta =>
    cases stepEq
    have kept := incr_keeps forward accounted gob ctx key delta
    exact ⟨kept.accounted, kept.config, fun quiet => kept.drops quiet.number⟩
  | decr ctx key delta =>
    cases stepEq
    have kept := decr_keeps forward accounted gob ctx key delta
    exact ⟨kept.accounted, kept.config, fun quiet => kept.drops quiet.number⟩
  | append ctx key data =>
    cases stepEq
    have kept := append_keeps forward accounted ctx key data
    exact ⟨kept.accounted, kept.config, fun quiet => kept.drops quiet.done⟩
  | visit key =>
    cases stepEq
    exact visit_keeps accounted key
  | remove index =>
    cases removed : cache.removePending clock index with
    | none => simp [cacheMachine, MemoryCache.step, removed] at stepEq
    | some after =>
      have nextEq : after = next := by
        simp only [cacheMachine, MemoryCache.step, removed, Option.map_some,
          Option.some.injEq, Prod.mk.injEq] at stepEq
        exact stepEq.1
      exact nextEq ▸ removePending_keeps accounted removed
  | close =>
    cases stepEq
    exact Keeps.of_drops (accounted.same rfl rfl rfl rfl) (Drops.same rfl (Nat.le_refl _) rfl)

end Sections

/-! ## Whole interleavings -/

/-- A new cache is empty. -/
theorem new_accounted {config : Config} {cache : MemoryCache}
    (opened : MemoryCache.new config = .ok cache) : Accounted cache ∧ cache.config = config := by
  unfold MemoryCache.new at opened
  split at opened
  · cases opened
  · rw [Except.ok.injEq] at opened
    subst opened
    exact ⟨⟨rfl, rfl, fun _ => Nat.zero_le _⟩, rfl⟩

/-- Along every interleaving of sections the counters agree with the items and
stay within the limit, and no section of a call that fails changes the items that
are live from its last clock reading on. -/
theorem cache_accounted (gob : Bytes → Option Int) {clock : Nat → Time}
    (forward : NonDecreasing clock) {config : Config} {start cache : MemoryCache}
    {sections : List Section} (opened : MemoryCache.new config = .ok start)
    (reached : (cacheMachine gob clock).Reaches start sections cache) :
    (cache.size = cache.store.keys.length ∧ cache.memory = payload cache.store ∧
      (0 < config.maxMemoryUsage → cache.memory ≤ config.maxMemoryUsage)) ∧
      ∀ step next result, (cacheMachine gob clock).step cache step = some (next, result) →
        result.Quiet → ∀ reading, next.readings ≤ reading + 1 →
          next.live (clock reading) = cache.live (clock reading) := by
  have invariant : Accounted cache ∧ cache.config = config := by
    have keeps : ∀ before step after result, True →
        Accounted before ∧ before.config = config →
        (cacheMachine gob clock).step before step = some (after, result) →
        Accounted after ∧ after.config = config := by
      rintro before step after result _ ⟨accounted, configEq⟩ stepEq
      have kept := step_keeps forward accounted gob step stepEq
      exact ⟨kept.accounted, kept.config.trans configEq⟩
    obtain ⟨done, _, ran⟩ := reached
    exact Machine.run_invariant keeps (new_accounted opened) (fun _ _ => trivial) ran
  obtain ⟨accounted, configEq⟩ := invariant
  refine ⟨⟨accounted.size, accounted.memory, fun positive => ?_⟩, ?_⟩
  · rw [← configEq] at positive ⊢
    exact accounted.limit positive
  · intro step next result stepEq quiet reading last
    exact ((step_keeps forward accounted gob step stepEq).drops quiet).live_eq forward last

/-- The clock of the sample run. -/
def sampleClock (reading : Nat) : Time := 10 * (reading : Int)

/-- An item that expires while it is used, a value that does not fit and a
removal that waits. -/
def sampleSections : List Section :=
  [.set background (ascii "a") (ascii "1") 25, .incr background (ascii "a") 9,
    .append background (ascii "b") (ascii "xyz"), .append background (ascii "b") (ascii "xyz"),
    .get background (ascii "a"), .set background (ascii "c") (ascii "x") 1,
    .existsKey background (ascii "c"), .remove 0]

theorem cache_accounted_sample :
    ∃ cache, (cacheMachine (fun _ => none) sampleClock).run
        { config := { maxMemoryUsage := 5 } } sampleSections = some cache ∧
      cache.size = cache.store.keys.length ∧ cache.memory = payload cache.store ∧
      cache.memory ≤ 5 := by
  have ran : ((cacheMachine (fun _ => none) sampleClock).run
      { config := { maxMemoryUsage := 5 } } sampleSections).isSome = true := by
    decide +kernel
  obtain ⟨cache, ranEq⟩ := Option.isSome_iff_exists.mp ran
  have forward : NonDecreasing sampleClock := by
    intro earlier later order
    simp only [sampleClock]
    omega
  have opened : MemoryCache.new { maxMemoryUsage := 5 } =
      .ok { config := { maxMemoryUsage := 5 } } := rfl
  obtain ⟨⟨size, memory, limit⟩, _⟩ := cache_accounted (fun _ => none) forward opened
    ⟨sampleSections, List.prefix_rfl, ranEq⟩
  exact ⟨cache, ranEq, size, memory, limit (by decide)⟩

end Plumego.Cache
