/-
Module: Plumego.Proofs.AbuseBound
Purpose: How many calls of one key the abuse limiter allows in an interval, over whole runs of
  calls: the table stays within its limit, and a bucket that is taken out while it is full makes
  no difference.
Trusted boundary: none
Main exports: Limiter.find, Limiter.level, Tidy, Tidy.evict, harmless, Accounted,
  allowed_le_of_harmless
-/
import Plumego.Lib.TokenBucket
import Plumego.Security.AbuseLimiter

namespace Plumego.Security.Abuse

open Plumego.Go Plumego.Lib

variable {hash : Bytes → Nat} {limiter : Limiter} {order : MapOrder Bucket}

/-! ## What is in the table -/

/-- The bucket of a key. -/
def Limiter.find (limiter : Limiter) (hash : Bytes → Nat) (key : Bytes) : Option Bucket :=
  (limiter.shards[limiter.shardIdx hash key]?).bind fun buckets => buckets.lookup key

/-- The tokens that a key has at an instant; a key without a bucket has all of them. -/
def Limiter.level (limiter : Limiter) (hash : Bytes → Nat) (key : Bytes) (now : Time) : Rat :=
  match limiter.find hash key with
  | none => limiter.capacity
  | some bucket => limiter.refill bucket now

/-- What holds of the table between two calls. -/
structure Tidy (hash : Bytes → Nat) (limiter : Limiter) : Prop where
  shards : limiter.shards ≠ []
  rate : 0 ≤ limiter.rate
  capacity : 0 ≤ limiter.capacity
  positive : 0 < limiter.maxEntries
  counted : limiter.bucketCount = limiter.shards.map fun buckets => (buckets.keys.length : Int)
  placed : ∀ shard buckets, limiter.shards[shard]? = some buckets → ∀ key ∈ buckets,
    limiter.shardIdx hash key = shard ∧ key ≠ []
  within : limiter.total ≤ limiter.maxEntries

theorem Tidy.getElem (tidy : Tidy hash limiter) (key : Bytes) :
    ∃ buckets, limiter.shards[limiter.shardIdx hash key]? = some buckets :=
  ⟨_, List.getElem?_eq_getElem (Nat.mod_lt _ (List.length_pos_of_ne_nil tidy.shards))⟩

/-- A change of the shard of a key that leaves every other key as it is. -/
theorem find_change {key other : Bytes} {change : StringMap Bucket → StringMap Bucket}
    {bucketCount : List Int}
    (elsewhere : other ≠ key → ∀ buckets, (change buckets).lookup other = buckets.lookup other) :
    Limiter.find
        { limiter with
          shards := limiter.shards.modify (limiter.shardIdx hash key) change
          bucketCount := bucketCount } hash other =
      if other = key then
        (limiter.shards[limiter.shardIdx hash key]?).bind fun buckets =>
          (change buckets).lookup key
      else limiter.find hash other := by
  simp only [Limiter.find, Limiter.shardIdx, List.length_modify, List.getElem?_modify]
  by_cases same : other = key
  · subst same
    simp [Option.bind_map]
  · rw [if_neg same]
    by_cases here : hash other % limiter.shards.length = hash key % limiter.shards.length
    · simp [here, Option.bind_map, elsewhere same]
    · simp [Ne.symm here]

/-- Writing the bucket of a key. -/
theorem find_insert (tidy : Tidy hash limiter) {key other : Bytes} {bucket : Bucket}
    {bucketCount : List Int} :
    Limiter.find
        { limiter with
          shards := limiter.shards.modify (limiter.shardIdx hash key) fun buckets =>
            buckets.insert key bucket
          bucketCount := bucketCount } hash other =
      if other = key then some bucket else limiter.find hash other := by
  obtain ⟨buckets, inside⟩ := tidy.getElem key
  rw [find_change fun different buckets => AList.lookup_insert_ne different, inside,
    Option.bind_some, AList.lookup_insert]

/-- Deleting a key. -/
theorem find_delete (tidy : Tidy hash limiter) {idx : Nat} {key other : Bytes} :
    (limiter.delete (limiter.shardIdx hash key) idx key).find hash other =
      if other = key then none else limiter.find hash other := by
  obtain ⟨buckets, inside⟩ := tidy.getElem key
  unfold Limiter.delete
  rw [find_change fun different buckets => AList.lookup_erase_ne different, inside,
    Option.bind_some, AList.lookup_erase]

/-! ## The oldest entry -/

/-- An entry that is in the table. -/
def Present (shards : List (StringMap Bucket)) (entry : Entry) : Prop :=
  ∃ buckets bucket, shards[entry.shard]? = some buckets ∧
    buckets.lookup entry.key = some bucket ∧ bucket.lastAccess = entry.lastAccess

theorem present_of_older {shards : List (StringMap Bucket)} {shard : Nat}
    {pairs : List (Bytes × Bucket)}
    (inside : ∀ pair ∈ pairs, Present shards ⟨shard, pair.1, pair.2.lastAccess⟩)
    {oldest : Option Entry} (before : ∀ entry ∈ oldest, Present shards entry) :
    ∀ entry ∈ pairs.foldl (older shard) oldest, Present shards entry := by
  induction pairs generalizing oldest with
  | nil => exact before
  | cons pair pairs ih =>
    apply ih (List.forall_mem_of_forall_mem_cons inside)
    have first := inside pair List.mem_cons_self
    intro entry found
    unfold older at found
    split at found
    · cases found
      exact first
    · split at found
      · cases found
        exact first
      · exact before entry found

theorem isSome_of_older {shard : Nat} {pairs : List (Bytes × Bucket)} {oldest : Option Entry}
    (some_ : pairs ≠ [] ∨ oldest.isSome) : (pairs.foldl (older shard) oldest).isSome := by
  induction pairs generalizing oldest with
  | nil => exact some_.resolve_left fun filled => filled rfl
  | cons pair pairs ih =>
    apply ih
    right
    unfold older
    split
    · rfl
    · split <;> rfl

theorem foldl_present {shards : List (StringMap Bucket)} (order : MapOrder Bucket)
    {rest : List (StringMap Bucket × Nat)}
    (inside : ∀ shard ∈ rest, shards[shard.2]? = some shard.1)
    {oldest : Option Entry} (before : ∀ entry ∈ oldest, Present shards entry) :
    ∀ entry ∈ rest.foldl
      (fun oldest shard => (order.list shard.1).foldl (older shard.2) oldest) oldest,
      Present shards entry := by
  induction rest generalizing oldest with
  | nil => exact before
  | cons shard rest ih =>
    apply ih (List.forall_mem_of_forall_mem_cons inside)
    refine present_of_older (fun pair member => ?_) before
    have found := mem_pairs.mp ((order.perm shard.1).mem_iff.mp member)
    exact ⟨shard.1, pair.2, inside shard List.mem_cons_self, found, rfl⟩

theorem foldl_isSome (order : MapOrder Bucket) {rest : List (StringMap Bucket × Nat)}
    {oldest : Option Entry}
    (filled : oldest.isSome ∨ ∃ shard ∈ rest, shard.1.keys ≠ []) :
    (rest.foldl (fun oldest shard => (order.list shard.1).foldl (older shard.2) oldest)
      oldest).isSome := by
  induction rest generalizing oldest with
  | nil => exact filled.resolve_right fun found => by simp at found
  | cons shard rest ih =>
    apply ih
    rcases filled with already | ⟨other, member, keys⟩
    · exact Or.inl (isSome_of_older (Or.inr already))
    · rcases List.mem_cons.mp member with rfl | later
      · refine Or.inl (isSome_of_older (Or.inl fun empty => keys ?_))
        have none := (order.perm other.1).symm.trans (by rw [empty])
        rw [← keys_pairs, List.Perm.eq_nil none, List.map_nil]
      · exact Or.inr ⟨other, later, keys⟩

/-- What the search finds is in the table. -/
theorem present_oldestEntry {entry : Entry}
    (found : oldestEntry order limiter.shards = some entry) : Present limiter.shards entry := by
  refine foldl_present order (fun shard member => ?_) (by simp) entry found
  exact List.mem_zipIdx_iff_getElem?.mp member

/-- The search finds an entry unless the table is empty. -/
theorem exists_oldestEntry (order : MapOrder Bucket)
    (filled : ∃ buckets ∈ limiter.shards, buckets.keys ≠ []) :
    ∃ entry, oldestEntry order limiter.shards = some entry := by
  obtain ⟨buckets, member, keys⟩ := filled
  obtain ⟨shard, found⟩ := List.getElem?_of_mem member
  exact Option.isSome_iff_exists.mp (foldl_isSome order
    (Or.inr ⟨(buckets, shard), List.mem_zipIdx_iff_getElem?.mpr found, keys⟩))

/-! ## The number of keys -/

theorem sum_modify (counts : List Int) (place : Nat) (delta : Int)
    (inside : place < counts.length) :
    (counts.modify place fun count => count + delta).sum = counts.sum + delta := by
  induction counts generalizing place with
  | nil => exact absurd inside (Nat.not_lt_zero _)
  | cons count counts ih =>
    cases place with
    | zero =>
      simp only [List.modify_zero_cons, List.sum_cons]
      omega
    | succ place =>
      have rest := ih place (Nat.lt_of_succ_lt_succ inside)
      simp only [List.modify_succ_cons, List.sum_cons, rest]
      omega

/-- A change of one shard that is counted, and within the limit. -/
theorem Tidy.modify (tidy : Tidy hash limiter) {shard : Nat} {buckets : StringMap Bucket}
    {change : StringMap Bucket → StringMap Bucket} {delta : Int}
    (found : limiter.shards[shard]? = some buckets)
    (size : ((change buckets).keys.length : Int) = buckets.keys.length + delta)
    (keys : ∀ key ∈ change buckets,
      key ∈ buckets ∨ (limiter.shardIdx hash key = shard ∧ key ≠ []))
    (within : limiter.total + delta ≤ limiter.maxEntries) :
    Tidy hash { limiter with
      shards := limiter.shards.modify shard change
      bucketCount := limiter.bucketCount.modify shard fun count => count + delta } := by
  have inside := (List.getElem?_eq_some_iff.mp found).1
  refine ⟨?_, tidy.rate, tidy.capacity, tidy.positive, ?_, ?_, ?_⟩
  · intro empty
    have length := congrArg List.length empty
    rw [List.length_modify] at length
    exact tidy.shards (List.length_eq_zero_iff.mp length)
  · show limiter.bucketCount.modify shard _ = (limiter.shards.modify shard change).map _
    rw [tidy.counted]
    apply List.ext_getElem?
    intro place
    simp only [List.getElem?_modify, List.getElem?_map]
    by_cases here : shard = place
    · subst here
      simp [found, size]
    · simp [here]
  · intro place changed foundChanged key member
    simp only [List.getElem?_modify] at foundChanged
    have sameIdx : Limiter.shardIdx { limiter with
        shards := limiter.shards.modify shard change
        bucketCount := limiter.bucketCount.modify shard fun count => count + delta } hash key =
        limiter.shardIdx hash key := by
      simp [Limiter.shardIdx]
    rw [sameIdx]
    by_cases here : shard = place
    · subst here
      obtain rfl : change buckets = changed := by simpa [found] using foundChanged
      rcases keys key member with old | new
      · exact tidy.placed shard buckets found key old
      · exact new
    · replace foundChanged : limiter.shards[place]? = some changed := by
        simpa [here] using foundChanged
      exact tidy.placed place changed foundChanged key member
  · show (limiter.bucketCount.modify shard _).sum ≤ _
    rw [sum_modify]
    · exact within
    · rw [tidy.counted, List.length_map]
      exact inside

theorem total_delete (tidy : Tidy hash limiter) {shard : Nat} {key : Bytes}
    (inside : shard < limiter.shards.length) :
    (limiter.delete shard shard key).total = limiter.total - 1 := by
  have counted : shard < limiter.bucketCount.length := by
    rw [tidy.counted, List.length_map]
    exact inside
  exact sum_modify limiter.bucketCount shard (-1) counted

/-- A full table has an entry. -/
theorem Tidy.exists_filled (tidy : Tidy hash limiter) (full : limiter.full = true) :
    ∃ buckets ∈ limiter.shards, buckets.keys ≠ [] := by
  by_contra none
  have empty : limiter.total = 0 := by
    rw [Limiter.total, tidy.counted]
    apply List.sum_eq_zero
    intro count member
    obtain ⟨buckets, inside, rfl⟩ := List.mem_map.mp member
    have keys : buckets.keys = [] := by
      by_contra filled
      exact none ⟨buckets, inside, filled⟩
    simp [keys]
  simp only [Limiter.full, Bool.and_eq_true, decide_eq_true_eq] at full
  omega

/-- What the guard does to a full table: it takes out the oldest entry. -/
theorem Tidy.evict (tidy : Tidy hash limiter) (order : MapOrder Bucket)
    (full : limiter.full = true) :
    ∃ entry bucket, oldestEntry order limiter.shards = some entry ∧
      entry.shard = limiter.shardIdx hash entry.key ∧
      limiter.find hash entry.key = some bucket ∧
      evictOldestGlobal hash limiter order = limiter.delete entry.shard entry.shard entry.key ∧
      Tidy hash (limiter.delete entry.shard entry.shard entry.key) ∧
      (limiter.delete entry.shard entry.shard entry.key).full = false := by
  obtain ⟨entry, oldest⟩ := exists_oldestEntry order (tidy.exists_filled full)
  obtain ⟨buckets, bucket, found, lookup, access⟩ := present_oldestEntry oldest
  have member : entry.key ∈ buckets := AList.lookup_isSome.mp (by rw [lookup]; rfl)
  obtain ⟨idx, filled⟩ := tidy.placed entry.shard buckets found entry.key member
  have inside := (List.getElem?_eq_some_iff.mp found).1
  have total := @total_delete hash limiter tidy entry.shard entry.key inside
  refine ⟨entry, bucket, oldest, idx.symm, ?_, ?_, ?_, ?_⟩
  · rw [Limiter.find, idx, found]
    exact lookup
  · rw [evictOldestGlobal, oldest]
    simp only [filled, if_false, found, Option.bind_some, lookup, access, if_true, idx]
  · refine tidy.modify found ?_ (fun key kept => Or.inl ?_) ?_
    · have erased := (values_erase_perm lookup).length_eq
      rw [List.length_cons, length_values, length_values] at erased
      omega
    · exact (AList.mem_erase.mp kept).2
    · have within := tidy.within
      omega
  · have within := tidy.within
    simp only [Limiter.full, Bool.and_eq_false_iff, decide_eq_false_iff_not, not_le]
    right
    rw [total]
    show limiter.total - 1 < limiter.maxEntries
    omega

/-! ## The level of a key -/

theorem refill_le_capacity (bucket : Bucket) (now : Time) :
    limiter.refill bucket now ≤ limiter.capacity := min_le_left _ _

theorem level_le_capacity (key : Bytes) (now : Time) :
    limiter.level hash key now ≤ limiter.capacity := by
  unfold Limiter.level
  split
  · exact le_refl _
  · exact refill_le_capacity _ now

theorem seconds_mono {first second : Int} (le : first ≤ second) :
    seconds first ≤ seconds second :=
  div_le_div_of_nonneg_right (by exact_mod_cast le) (by norm_num)

theorem seconds_add (first second : Int) :
    seconds (first + second) = seconds first + seconds second := by
  simp only [seconds, Int.cast_add, add_div]

/-- The time since a bucket was refilled, in seconds. -/
def sinceRefill (bucket : Bucket) (now : Time) : Rat :=
  if seconds (timeSub now bucket.lastRefill) < 0 then 0
  else seconds (timeSub now bucket.lastRefill)

theorem sinceRefill_eq (bucket : Bucket) (now : Time) :
    sinceRefill bucket now = seconds (max 0 (timeSub now bucket.lastRefill)) := by
  have zero : seconds 0 = 0 := by simp [seconds]
  unfold sinceRefill
  split
  · rename_i negative
    have below : timeSub now bucket.lastRefill ≤ 0 := by
      by_contra above
      have positive := seconds_mono (not_le.mp above).le
      exact absurd negative (not_lt.mpr (zero ▸ positive))
    rw [max_eq_left below, zero]
  · rename_i positive
    have above : 0 ≤ timeSub now bucket.lastRefill := by
      by_contra below
      have negative : seconds (timeSub now bucket.lastRefill) < 0 :=
        div_neg_of_neg_of_pos (by exact_mod_cast not_le.mp below) (by norm_num)
      exact positive negative
    rw [max_eq_right above]

theorem sinceRefill_later (bucket : Bucket) {now later : Int} (after : now ≤ later) :
    sinceRefill bucket later ≤ sinceRefill bucket now + seconds (later - now) := by
  have apart : max 0 (timeSub later bucket.lastRefill) ≤
      max 0 (timeSub now bucket.lastRefill) + (later - now) := by
    generalize bucket.lastRefill = last
    unfold timeSub maxDuration
    split <;> split <;> (try split) <;> (try split) <;> omega
  rw [sinceRefill_eq, sinceRefill_eq, ← seconds_add]
  exact seconds_mono apart

/-- Between two instants a bucket fills at most at its rate. -/
theorem refill_later (rate : 0 ≤ limiter.rate) (bucket : Bucket) {now later : Int}
    (after : now ≤ later) :
    limiter.refill bucket later ≤
      limiter.refill bucket now + limiter.rate * seconds (later - now) := by
  have longer := mul_le_mul_of_nonneg_right (sinceRefill_later bucket after) rate
  have filled : 0 ≤ limiter.rate * seconds (later - now) :=
    mul_nonneg rate (by simpa [seconds] using seconds_mono (Int.sub_nonneg.mpr after))
  show min limiter.capacity (bucket.tokens + sinceRefill bucket later * limiter.rate) ≤
    min limiter.capacity (bucket.tokens + sinceRefill bucket now * limiter.rate) + _
  rw [← min_add_add_right]
  refine min_le_min (by linarith) ?_
  rw [add_mul, mul_comm (seconds (later - now))] at longer
  linarith

theorem level_later (rate : 0 ≤ limiter.rate) (key : Bytes) {now later : Int}
    (after : now ≤ later) :
    limiter.level hash key later ≤
      limiter.level hash key now + limiter.rate * seconds (later - now) := by
  unfold Limiter.level
  split
  · exact le_add_of_nonneg_right
      (mul_nonneg rate (by simpa [seconds] using seconds_mono (Int.sub_nonneg.mpr after)))
  · exact refill_later rate _ after

/-- A bucket refilled at the same instant has the tokens that were written. -/
theorem refill_now {tokens : Rat} {now access : Time} (bounded : tokens ≤ limiter.capacity) :
    limiter.refill ⟨tokens, now, access⟩ now = tokens := by
  have none : timeSub now now = 0 := by
    simp [timeSub, maxDuration]
  simp [Limiter.refill, none, seconds, bounded]

/-! ## One call -/

/-- A full table loses only a bucket that has refilled: the entry that the guard takes out has all
its tokens at the instant of the call. -/
def harmless (state : State) (op : Op) : Bool :=
  decide (op.key = []) || !state.limiter.full ||
    (oldestEntry op.order state.limiter.shards).all fun entry =>
      ((state.limiter.shards[entry.shard]?).bind fun buckets => buckets.lookup entry.key).all
        fun bucket => decide (state.limiter.refill bucket (op.now state) = state.limiter.capacity)

/-- A change of the table that no key notices at an instant. -/
structure Follows (hash : Bytes → Nat) (now : Time) (before after : Limiter) : Prop where
  rate : after.rate = before.rate
  capacity : after.capacity = before.capacity
  level : ∀ key, after.level hash key now = before.level hash key now

theorem Follows.refl (hash : Bytes → Nat) (now : Time) (limiter : Limiter) :
    Follows hash now limiter limiter := ⟨rfl, rfl, fun _ => rfl⟩

/-- The table after the guard. -/
def Limiter.guarded (limiter : Limiter) (hash : Bytes → Nat) (order : MapOrder Bucket) : Limiter :=
  if limiter.full then evictOldestGlobal hash limiter order else limiter

/-- The guard makes room, and takes out no bucket that is missing tokens. -/
theorem Tidy.guarded (tidy : Tidy hash limiter) {now : Time}
    (refilled : limiter.full = true → ∀ entry bucket,
      oldestEntry order limiter.shards = some entry → limiter.find hash entry.key = some bucket →
        limiter.refill bucket now = limiter.capacity) :
    Tidy hash (limiter.guarded hash order) ∧ (limiter.guarded hash order).full = false ∧
      Follows hash now limiter (limiter.guarded hash order) := by
  unfold Limiter.guarded
  by_cases full : limiter.full = true
  · obtain ⟨entry, bucket, oldest, shard, found, evicted, kept, room⟩ := tidy.evict order full
    rw [if_pos full, evicted]
    refine ⟨kept, room, rfl, rfl, fun key => ?_⟩
    have level := refilled full entry bucket oldest found
    have after : (limiter.delete entry.shard entry.shard entry.key).find hash key =
        if key = entry.key then none else limiter.find hash key := by
      rw [shard]
      exact find_delete tidy
    unfold Limiter.level
    rw [after]
    by_cases same : key = entry.key
    · rw [if_pos same, same, found]
      exact level.symm
    · rw [if_neg same]
      rfl
  · rw [if_neg full]
    exact ⟨tidy, Bool.eq_false_iff.mpr full, .refl hash now limiter⟩

/-- A table with room takes a new key. -/
theorem Tidy.addKey (tidy : Tidy hash limiter) (room : limiter.full = false) {key : Bytes}
    (filled : key ≠ []) (absent : limiter.find hash key = none) {bucket : Bucket} :
    Tidy hash { limiter with
      shards := limiter.shards.modify (limiter.shardIdx hash key) fun buckets =>
        buckets.insert key bucket
      bucketCount := limiter.bucketCount.modify (limiter.shardIdx hash key) fun count =>
        count + 1 } := by
  obtain ⟨buckets, inside⟩ := tidy.getElem key
  have notFound : buckets.lookup key = none := by
    rw [Limiter.find, inside] at absent
    exact absent
  refine tidy.modify inside ?_ (fun other member => ?_) ?_
  · have added := (values_insert_perm bucket notFound).length_eq
    rw [List.length_cons, length_values, length_values] at added
    omega
  · rcases (AList.mem_insert _).mp member with rfl | old
    · exact Or.inr ⟨rfl, filled⟩
    · exact Or.inl old
  · have positive := tidy.positive
    simp only [Limiter.full, Bool.and_eq_false_iff, decide_eq_false_iff_not] at room
    omega

/-- A table with room finds the bucket of a key, or makes one that is full. -/
theorem Tidy.bucketFor_find (tidy : Tidy hash limiter) (room : limiter.full = false) {key : Bytes}
    (filled : key ≠ []) (now : Time) :
    ∃ table bucket, limiter.bucketFor hash key now order = (table, bucket) ∧
      Tidy hash table ∧ table.find hash key = some bucket ∧ table.rate = limiter.rate ∧
      table.capacity = limiter.capacity ∧ table.maxEntries = limiter.maxEntries ∧
      table.refill bucket now = limiter.level hash key now ∧
      ∀ other, other ≠ key → table.find hash other = limiter.find hash other := by
  unfold Limiter.bucketFor
  cases found : limiter.find hash key with
  | some bucket =>
    have lookup : ((limiter.shards[limiter.shardIdx hash key]?).bind
      fun buckets => buckets.lookup key) = some bucket := found
    simp only [lookup]
    refine ⟨limiter, bucket, rfl, tidy, found, rfl, rfl, rfl, ?_, fun _ _ => rfl⟩
    rw [Limiter.level, found]
  | none =>
    have lookup : ((limiter.shards[limiter.shardIdx hash key]?).bind
      fun buckets => buckets.lookup key) = none := found
    simp only [lookup, room, Bool.false_eq_true, if_false]
    refine ⟨_, _, rfl, tidy.addKey room filled found, ?_, rfl, rfl, rfl, ?_, ?_⟩
    · rw [find_insert tidy, if_pos rfl]
    · rw [Limiter.level, found]
      exact refill_now (le_refl limiter.capacity)
    · intro other different
      rw [find_insert tidy, if_neg different]

/-- A key gets a bucket of its own, and no key notices. -/
theorem Tidy.bucketFor (tidy : Tidy hash limiter) (room : limiter.full = false) {key : Bytes}
    (filled : key ≠ []) (now : Time) :
    Tidy hash (limiter.bucketFor hash key now order).1 ∧
      (limiter.bucketFor hash key now order).1.find hash key =
        some (limiter.bucketFor hash key now order).2 ∧
      Follows hash now limiter (limiter.bucketFor hash key now order).1 := by
  obtain ⟨table, bucket, taken, kept, found, rateEq, capacityEq, -, tokens, elsewhere⟩ :=
    @Tidy.bucketFor_find hash limiter order tidy room key filled now
  rw [taken]
  refine ⟨kept, found, rateEq, capacityEq, fun other => ?_⟩
  by_cases same : other = key
  · rw [same, ← tokens, Limiter.level, found]
  · unfold Limiter.level Limiter.refill
    rw [elsewhere other same, rateEq, capacityEq]

/-- Writing the bucket of a key that has one. -/
theorem Tidy.write (tidy : Tidy hash limiter) {key : Bytes} {old : Bucket}
    (found : limiter.find hash key = some old) (bucket : Bucket) :
    Tidy hash { limiter with
      shards := limiter.shards.modify (limiter.shardIdx hash key) fun buckets =>
        buckets.insert key bucket } := by
  obtain ⟨buckets, inside, lookup⟩ := Option.bind_eq_some_iff.mp found
  have member : key ∈ buckets := AList.lookup_isSome.mp (by rw [lookup]; rfl)
  have size : ((buckets.insert key bucket).keys.length : Int) = buckets.keys.length + 0 := by
    have gone : (buckets.erase key).lookup key = none := AList.lookup_erase _ _
    have added := (values_insert_perm bucket gone).length_eq
    have erased := (values_erase_perm lookup).length_eq
    rw [insert_erase, List.length_cons, length_values, length_values] at added
    rw [List.length_cons, length_values, length_values] at erased
    omega
  have written := @Tidy.modify hash limiter tidy _ buckets
    (fun buckets => buckets.insert key bucket) 0 inside size
    (fun other inserted => by
      rcases (AList.mem_insert _).mp inserted with rfl | old
      · exact Or.inl member
      · exact Or.inl old)
    (by simpa using tidy.within)
  have unchanged : (limiter.bucketCount.modify (limiter.shardIdx hash key) fun count =>
      count + 0) = limiter.bucketCount := by
    simp only [Int.add_zero]
    exact List.modify_id _ _
  rwa [unchanged] at written

/-- What is left of a level after a call. -/
def spend (level : Rat) : Rat := if 1 ≤ level then level - 1 else level

/-- The decision of a call whose key has some tokens. -/
def decisionFrom (rate capacity level : Rat) (later : Time) : Decision where
  allowed := decide (1 ≤ level)
  limit := capacity.floor
  remaining := (spend level).floor
  reset :=
    if 0 < rate then later + durationFromSeconds (max 0 (capacity - spend level) / rate) else later
  retryAfter :=
    if !decide (1 ≤ level) ∧ 0 < rate then durationFromSeconds (max 0 (1 - spend level) / rate)
    else 0

theorem allow_eq {table : Limiter} {bucket : Bucket} {key : Bytes} {now later : Time}
    (shards : limiter.shards ≠ []) (filled : key ≠ [])
    (taken : (limiter.guarded hash order).bucketFor hash key now order = (table, bucket)) :
    allow hash limiter key now later order =
      ({ table with
          shards := table.shards.modify (table.shardIdx hash key) fun buckets =>
            buckets.insert key ⟨spend (table.refill bucket now), now, now⟩ },
        decisionFrom table.rate table.capacity (table.refill bucket now) later) := by
  have notEmpty : ¬ (limiter.shards.isEmpty = true ∨ key = []) := by simp [shards, filled]
  unfold Limiter.guarded at taken
  unfold allow
  rw [if_neg notEmpty]
  simp only [taken, decisionFrom, spend, decide_eq_true_eq]

/-- What a call does: it is allowed exactly if its key has a token, and takes it. -/
theorem Tidy.allow (tidy : Tidy hash limiter) {key : Bytes} (filled : key ≠ []) {now : Time}
    (later : Time)
    (refilled : limiter.full = true → ∀ entry bucket,
      oldestEntry order limiter.shards = some entry → limiter.find hash entry.key = some bucket →
        limiter.refill bucket now = limiter.capacity) :
    Tidy hash (allow hash limiter key now later order).1 ∧
      (allow hash limiter key now later order).1.rate = limiter.rate ∧
      (allow hash limiter key now later order).1.capacity = limiter.capacity ∧
      (allow hash limiter key now later order).2.allowed =
        decide (1 ≤ limiter.level hash key now) ∧
      ∀ other, (allow hash limiter key now later order).1.level hash other now =
        if other = key then spend (limiter.level hash key now)
        else limiter.level hash other now := by
  obtain ⟨guarded, room, unnoticed⟩ := tidy.guarded refilled
  obtain ⟨kept, found, follows⟩ := @Tidy.bucketFor hash _ order guarded room key filled now
  cases taken : (limiter.guarded hash order).bucketFor hash key now order with
  | mk table bucket =>
    rw [taken] at kept found follows
    have called := @allow_eq hash limiter order table bucket key now later
      tidy.shards filled taken
    have levels : ∀ other, table.level hash other now = limiter.level hash other now :=
      fun other => (follows.level other).trans (unnoticed.level other)
    have tokens : table.refill bucket now = limiter.level hash key now := by
      rw [← levels key, Limiter.level, found]
    have capacity : table.capacity = limiter.capacity :=
      follows.capacity.trans unnoticed.capacity
    rw [called, tokens]
    refine ⟨kept.write found _, follows.rate.trans unnoticed.rate, capacity, rfl,
      fun other => ?_⟩
    rw [Limiter.level, find_insert kept]
    by_cases same : other = key
    · rw [if_pos same, if_pos same]
      refine refill_now ?_
      show spend _ ≤ table.capacity
      rw [capacity]
      have bounded := @level_le_capacity hash limiter key now
      unfold spend
      split
      · linarith
      · exact bounded
    · rw [if_neg same, if_neg same, ← levels other]
      rfl

/-! ## Runs -/

/-- When calls of a key were allowed, in seconds. -/
def State.grants (state : State) (key : Bytes) : List Rat :=
  (state.records.filter fun record => decide (record.key = key) && record.allowed).map
    fun record => seconds record.time

/-- The account of every key. -/
structure Accounted (hash : Bytes → Nat) (rate capacity : Rat) (state : State) : Prop where
  tidy : Tidy hash state.limiter
  rateEq : state.limiter.rate = rate
  capacityEq : state.limiter.capacity = capacity
  metered : ∀ key, Metered rate capacity (state.grants key)
    (state.limiter.level hash key state.clock) (seconds state.clock)

theorem seconds_sub (first second : Int) :
    seconds (first - second) = seconds first - seconds second := by
  simp only [seconds, Int.cast_sub, sub_div]

/-- The account of a key while time passes. -/
theorem Tidy.wait (tidy : Tidy hash limiter) {key : Bytes} {grants : List Rat} {now later : Int}
    (metered : Metered limiter.rate limiter.capacity grants (limiter.level hash key now)
      (seconds now)) (after : now ≤ later) :
    Metered limiter.rate limiter.capacity grants (limiter.level hash key later)
      (seconds later) := by
  refine metered.wait tidy.rate (seconds_mono after) (level_le_capacity key later) ?_
  rw [← seconds_sub]
  exact level_later tidy.rate key after

variable {rate capacity : Rat} {state : State} {op : Op}

theorem refilled_of_harmless (tidy : Tidy hash state.limiter) (filled : op.key ≠ [])
    (met : harmless state op = true) :
    state.limiter.full = true → ∀ entry bucket,
      oldestEntry op.order state.limiter.shards = some entry →
      state.limiter.find hash entry.key = some bucket →
        state.limiter.refill bucket (op.now state) = state.limiter.capacity := by
  intro full entry bucket oldest found
  obtain ⟨buckets, old, inside, lookup, _⟩ := present_oldestEntry oldest
  have member : entry.key ∈ buckets := AList.lookup_isSome.mp (by rw [lookup]; rfl)
  obtain ⟨idx, _⟩ := tidy.placed entry.shard buckets inside entry.key member
  have same : old = bucket := by
    rw [Limiter.find, idx, inside, Option.bind_some, lookup] at found
    exact Option.some.inj found
  subst same
  simpa [harmless, filled, full, oldest, inside, lookup] using met

theorem grants_append {limiter : Limiter} {clock : Time} {record : Record} {key : Bytes} :
    (State.mk limiter clock (state.records ++ [record])).grants key =
      if record.key = key ∧ record.allowed = true then state.grants key ++ [seconds record.time]
      else state.grants key := by
  unfold State.grants
  rw [List.filter_append, List.map_append]
  split
  · rename_i counts
    simp [counts.1, counts.2]
  · rename_i other
    simp [other]

theorem step_eq :
    (step hash state op).1 =
      { limiter := (allow hash state.limiter op.key (op.now state)
          (op.now state + op.between) op.order).1
        clock := op.now state + op.between
        records := state.records ++ [⟨op.key, op.now state,
          (allow hash state.limiter op.key (op.now state)
            (op.now state + op.between) op.order).2.allowed⟩] } := rfl

/-- Every call keeps the accounts. -/
theorem Accounted.step (accounted : Accounted hash rate capacity state)
    (met : harmless state op = true) :
    Accounted hash rate capacity (step hash state op).1 := by
  obtain ⟨tidy, rfl, rfl, metered⟩ := accounted
  have sooner : state.clock ≤ op.now state := Int.le_add_of_nonneg_right (Int.natCast_nonneg _)
  have later : op.now state ≤ op.now state + op.between :=
    Int.le_add_of_nonneg_right (Int.natCast_nonneg _)
  have atCall := fun key => tidy.wait (metered key) sooner
  by_cases filled : op.key = []
  · have unchanged : allow hash state.limiter op.key (op.now state)
        (op.now state + op.between) op.order = (state.limiter, denied) :=
      if_pos (Or.inr filled)
    rw [step_eq, unchanged]
    refine ⟨tidy, rfl, rfl, fun key => ?_⟩
    rw [grants_append, if_neg (fun counts => Bool.false_ne_true counts.2)]
    exact tidy.wait (atCall key) later
  · obtain ⟨kept, rateEq, capacityEq, allowedEq, levels⟩ :=
      tidy.allow filled (op.now state + op.between) (refilled_of_harmless tidy filled met)
    rw [step_eq]
    generalize allow hash state.limiter op.key (op.now state) (op.now state + op.between)
      op.order = result at kept rateEq capacityEq allowedEq levels ⊢
    obtain ⟨table, decision⟩ := result
    dsimp only at kept rateEq capacityEq allowedEq levels ⊢
    refine ⟨kept, rateEq, capacityEq, fun key => ?_⟩
    have taken : Metered state.limiter.rate state.limiter.capacity
        (State.grants ⟨table, op.now state + op.between,
          state.records ++ [⟨op.key, op.now state, decision.allowed⟩]⟩ key)
        (table.level hash key (op.now state)) (seconds (op.now state)) := by
      rw [levels key, grants_append]
      simp only [allowedEq, decide_eq_true_eq]
      by_cases same : op.key = key
      · subst same
        by_cases enough : 1 ≤ state.limiter.level hash op.key (op.now state)
        · rw [if_pos rfl, if_pos ⟨rfl, enough⟩, spend, if_pos enough]
          exact (atCall op.key).grant tidy.rate enough
        · rw [if_pos rfl, if_neg (fun counts => enough counts.2), spend, if_neg enough]
          exact atCall op.key
      · rw [if_neg (Ne.symm same), if_neg (fun counts => same counts.1)]
        exact atCall key
    rw [← rateEq, ← capacityEq] at taken ⊢
    exact kept.wait taken later

/-- The limiter of a configuration, before the first call. -/
def start (limiter : Limiter) (clock : Time) : State where
  limiter := limiter
  clock := clock
  records := []

/-- Every default is positive, and so is every field that was checked and is not zero. -/
theorem positive_of_normalizeConfig {config normalized : Config}
    (ok : normalizeConfig config = .ok normalized) :
    0 < normalized.rate ∧ 0 < normalized.capacity ∧ 0 < normalized.maxEntries ∧
      0 < normalized.maxIdle ∧ 0 < normalized.shards := by
  unfold normalizeConfig at ok
  iterate 6
    split at ok
    · cases ok
  rename_i rate capacity maxEntries _ maxIdle shards
  cases ok
  refine ⟨?_, ?_, ?_, ?_, ?_⟩
  · dsimp only
    split
    · decide
    · rename_i set
      exact lt_of_le_of_ne (not_lt.mp rate) (Ne.symm set)
  all_goals
    dsimp only [defaultConfig]
    split <;> omega

theorem accounted_start {config : Config} (made : newLimiterWithConfig config = .ok limiter)
    (clock : Time) : Accounted hash limiter.rate limiter.capacity (start limiter clock) := by
  obtain ⟨normalized, ok, rest⟩ := except_bind_eq_ok.mp made
  obtain ⟨rate, capacity, maxEntries, -, shards⟩ := positive_of_normalizeConfig ok
  cases rest
  have empty : ∀ shard buckets,
      (List.replicate normalized.shards.toNat (∅ : StringMap Bucket))[shard]? = some buckets →
        buckets = ∅ := fun shard buckets found =>
    List.eq_of_mem_replicate (List.mem_of_getElem? found)
  have fits : (0 : Rat) ≤ normalized.capacity := by exact_mod_cast capacity.le
  refine ⟨⟨?_, rate.le, fits, maxEntries, ?_, ?_, ?_⟩, rfl, rfl, fun key => ?_⟩
  · intro none
    have length : normalized.shards.toNat = 0 := by simpa [start] using congrArg List.length none
    omega
  · simp [start]
  · intro shard buckets found key member
    rw [empty shard buckets found] at member
    exact absurd member (AList.notMem_empty key)
  · have zero : (List.replicate normalized.shards.toNat (0 : Int)).sum = 0 :=
      List.sum_eq_zero fun count member => List.eq_of_mem_replicate member
    show (List.replicate normalized.shards.toNat (0 : Int)).sum ≤ normalized.maxEntries
    rw [zero]
    exact maxEntries.le
  · exact metered_nil rate.le fits (level_le_capacity key clock)

/-- How many calls of a key were allowed in an interval. -/
def State.allowedWithin (state : State) (key : Bytes) (start length : Rat) : Nat :=
  state.records.countP fun record => decide (record.key = key) && record.allowed &&
    decide (start ≤ seconds record.time ∧ seconds record.time ≤ start + length)

theorem allowedWithin_eq (state : State) (key : Bytes) (start length : Rat) :
    state.allowedWithin key start length = grantedWithin (state.grants key) start length := by
  unfold State.allowedWithin grantedWithin State.grants
  rw [List.countP_map, List.countP_filter]
  congr 1
  funext record
  simp [Bool.and_comm]

/-- In a run in which a full table loses only buckets that have refilled, no key has more calls
allowed in an interval than the capacity and what comes in at its rate. -/
theorem allowed_le_of_harmless {config : Config}
    (made : newLimiterWithConfig config = .ok limiter) (clock : Time) {ops : List Op}
    (meets : (machine hash).Meets (fun state op => harmless state op = true)
      (start limiter clock) ops)
    (reached : (machine hash).Reaches (start limiter clock) ops state) (key : Bytes)
    (first length : Rat) (long : 0 ≤ length) :
    (state.allowedWithin key first length : Rat) ≤ limiter.capacity + limiter.rate * length := by
  have accounted : Accounted hash limiter.rate limiter.capacity state := by
    refine Machine.reaches_invariant ?_ (accounted_start made clock) meets reached
    intro before op next out accounted met stepEq
    cases stepEq
    exact accounted.step met
  rw [allowedWithin_eq]
  exact (accounted.metered key).within first length long

/-- One order of a map. -/
def asListed : MapOrder Bucket where
  list := pairs
  perm := fun _ => List.Perm.refl _

/-- A call right after the one before. -/
def atOnce (key : Bytes) : Op where
  elapsed := 0
  key := key
  between := 0
  order := asListed

/-- One token a second for each key, and room for two keys. -/
def twoKeys : Config where
  rate := 1
  capacity := 2
  maxEntries := 2
  cleanupInterval := 0
  maxIdle := 0
  shards := 1

/-- The limiter of a configuration with one shard. -/
def oneShard (capacity : Rat) (maxEntries : Int) : Limiter where
  shards := [∅]
  bucketCount := [0]
  rate := 1
  capacity := capacity
  maxEntries := maxEntries

theorem allowed_le_oneKey :
    ∃ state, (machine fun _ => 0).run (start (oneShard 2 2) 0)
        [atOnce (ascii "a"), atOnce (ascii "a"), atOnce (ascii "a")] = some state ∧
      state.allowedWithin (ascii "a") 0 0 = 2 ∧
      (state.allowedWithin (ascii "a") 0 0 : Rat) ≤ 2 + 1 * 0 := by
  have ran : ((machine fun _ => 0).run (start (oneShard 2 2) 0)
      [atOnce (ascii "a"), atOnce (ascii "a"), atOnce (ascii "a")]).map
      (fun state => state.allowedWithin (ascii "a") 0 0) = some 2 := by decide +kernel
  obtain ⟨state, ranEq, two⟩ := Option.map_eq_some_iff.mp ran
  have made : newLimiterWithConfig twoKeys = .ok (oneShard 2 2) := by decide +kernel
  exact ⟨state, ranEq, two, allowed_le_of_harmless made 0 (by decide +kernel)
    ⟨_, List.prefix_rfl, ranEq⟩ (ascii "a") 0 0 (le_refl 0)⟩

/-- With room for one key the guard finds the table full at every call of it, takes its bucket out
and the key gets a new one: all calls are allowed at once, with a capacity of one. -/
theorem allowed_three_of_capacity_one :
    newLimiterWithConfig { twoKeys with capacity := 1, maxEntries := 1 } = .ok (oneShard 1 1) ∧
    ((machine fun _ => 0).run (start (oneShard 1 1) 0)
      [atOnce (ascii "a"), atOnce (ascii "a"), atOnce (ascii "a")]).map
      (fun state => state.allowedWithin (ascii "a") 0 0) = some 3 ∧
    ¬ ((3 : Rat) ≤ (oneShard 1 1).capacity + (oneShard 1 1).rate * 0) := by
  decide +kernel

end Plumego.Security.Abuse
