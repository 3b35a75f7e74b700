/-
Module: Plumego.Proofs.AbuseCleanup
Purpose: The cleanup of the abuse limiter changes no decision, as long as a bucket that is idle for
  longer than the limit has refilled by then, and only then.
Trusted boundary: none
Main exports: Holds, Holds.allow, Holds.cleanup, SameLevels, cleanup_transparent,
  refills_of_transparent
-/
import Mathlib.Algebra.BigOperators.Ring.Finset
import Mathlib.Algebra.Order.BigOperators.Group.List
import Plumego.Proofs.AbuseBound
import Plumego.Security.AbuseCleanup

namespace Plumego.Security.Abuse

open Plumego.Go Plumego.Lib

variable {hash : Bytes → Nat} {limiter : Limiter} {keys : Finset Bytes}

/-! ## A table of few keys -/

/-- A table whose keys are among fewer than it has room for. -/
structure Holds (hash : Bytes → Nat) (keys : Finset Bytes) (limiter : Limiter) : Prop where
  tidy : Tidy hash limiter
  few : (keys.card : Int) < limiter.maxEntries
  known : ∀ key bucket, limiter.find hash key = some bucket →
    key ∈ keys ∧ 0 ≤ bucket.tokens ∧ bucket.lastAccess = bucket.lastRefill

/-- A bucket is found by its key wherever it is. -/
theorem Tidy.find_eq (tidy : Tidy hash limiter) {shard : Nat} {buckets : StringMap Bucket}
    (found : limiter.shards[shard]? = some buckets) {key : Bytes} (member : key ∈ buckets) :
    limiter.find hash key = buckets.lookup key := by
  rw [Limiter.find, (tidy.placed shard buckets found key member).1, found, Option.bind_some]

theorem Holds.mem_keys (holds : Holds hash keys limiter) {shard : Nat} {buckets : StringMap Bucket}
    (found : limiter.shards[shard]? = some buckets) {key : Bytes} (member : key ∈ buckets) :
    key ∈ keys := by
  obtain ⟨bucket, lookup⟩ := Option.isSome_iff_exists.mp (AList.lookup_isSome.mpr member)
  exact (holds.known key bucket ((holds.tidy.find_eq found member).trans lookup)).1

/-- No key is in two shards. -/
theorem Tidy.nodup_keys (tidy : Tidy hash limiter) :
    (limiter.shards.flatMap fun buckets => buckets.keys).Nodup := by
  rw [List.nodup_flatMap]
  refine ⟨fun buckets _ => buckets.keys_nodup, List.pairwise_iff_getElem.mpr ?_⟩
  intro first second firstInside secondInside before key inFirst inSecond
  have firstPlace := (tidy.placed first _ (List.getElem?_eq_getElem firstInside) key inFirst).1
  have secondPlace := (tidy.placed second _ (List.getElem?_eq_getElem secondInside) key inSecond).1
  omega

theorem Holds.room (holds : Holds hash keys limiter) : limiter.full = false := by
  have counted : limiter.total =
      ((limiter.shards.flatMap fun buckets => buckets.keys).length : Int) := by
    rw [Limiter.total, holds.tidy.counted, List.length_flatMap, Nat.cast_list_sum, List.map_map]
    rfl
  have among : (limiter.shards.flatMap fun buckets => buckets.keys).toFinset ⊆ keys := by
    intro key member
    obtain ⟨buckets, isShard, inShard⟩ := List.mem_flatMap.mp (List.mem_toFinset.mp member)
    obtain ⟨shard, found⟩ := List.getElem?_of_mem isShard
    exact holds.mem_keys found inShard
  have few := holds.few
  have size := Finset.card_le_card among
  rw [List.toFinset_card_of_nodup holds.tidy.nodup_keys] at size
  rw [Limiter.full, counted, Bool.and_eq_false_iff]
  exact .inr (decide_eq_false (by omega))

theorem refill_nonneg (tidy : Tidy hash limiter) {bucket : Bucket} (tokens : 0 ≤ bucket.tokens)
    (now : Time) : 0 ≤ limiter.refill bucket now := by
  have elapsed : 0 ≤ sinceRefill bucket now := by
    unfold sinceRefill
    split
    · exact le_refl 0
    · exact not_lt.mp (by assumption)
  have refilled := mul_nonneg elapsed tidy.rate
  exact le_min tidy.capacity (add_nonneg tokens refilled)

theorem Holds.level_nonneg (holds : Holds hash keys limiter) (key : Bytes) (now : Time) :
    0 ≤ limiter.level hash key now := by
  unfold Limiter.level
  split
  · exact holds.tidy.capacity
  · rename_i bucket found
    exact refill_nonneg holds.tidy (holds.known key bucket found).2.1 now

theorem spend_nonneg {level : Rat} (nonneg : 0 ≤ level) : 0 ≤ spend level := by
  unfold spend
  split
  · linarith
  · exact nonneg

/-! ## Calls -/

/-- A call decides by the level of its key, and writes what it leaves. -/
theorem Holds.allow (holds : Holds hash keys limiter) (order : MapOrder Bucket) {key : Bytes}
    (filled : key ≠ []) (used : key ∈ keys) (now later : Time) :
    ∃ after, allow hash limiter key now later order =
        (after, decisionFrom limiter.rate limiter.capacity (limiter.level hash key now) later) ∧
      Holds hash keys after ∧ after.rate = limiter.rate ∧ after.capacity = limiter.capacity ∧
      ∀ other, after.find hash other =
        if other = key then some ⟨spend (limiter.level hash key now), now, now⟩
        else limiter.find hash other := by
  obtain ⟨table, bucket, taken, tidy, found, rateEq, capacityEq, maxEntriesEq, level, elsewhere⟩ :=
    holds.tidy.bucketFor_find holds.room filled now
  have guarded : limiter.guarded hash order = limiter := by
    rw [Limiter.guarded, holds.room]
    rfl
  rw [← guarded] at taken
  have called := @allow_eq hash limiter order table bucket key now later holds.tidy.shards filled taken
  rw [level] at called
  have finds : ∀ other, Limiter.find
      { table with
        shards := table.shards.modify (table.shardIdx hash key) fun buckets =>
          buckets.insert key ⟨spend (limiter.level hash key now), now, now⟩ } hash other =
      if other = key then some ⟨spend (limiter.level hash key now), now, now⟩
      else limiter.find hash other := by
    intro other
    rw [find_insert tidy]
    by_cases same : other = key
    · rw [if_pos same, if_pos same]
    · rw [if_neg same, if_neg same, elsewhere other same]
  refine ⟨_, ?_, ⟨tidy.write found _, ?_, ?_⟩, rateEq, capacityEq, finds⟩
  · rw [called, rateEq, capacityEq]
  · exact maxEntriesEq ▸ holds.few
  · intro other stored inside
    rw [finds] at inside
    by_cases same : other = key
    · rw [if_pos same] at inside
      cases inside
      exact ⟨same ▸ used, spend_nonneg (holds.level_nonneg key now), rfl⟩
    · rw [if_neg same] at inside
      exact holds.known other stored inside

/-! ## Cleanups -/

variable {maxIdle : Int} {now : Time}

theorem find_cleanup (limiter : Limiter) (maxIdle : Int) (now : Time) (key : Bytes) (bucket : Bucket) :
    (limiter.cleanup maxIdle now).find hash key = some bucket ↔
      limiter.find hash key = some bucket ∧ expired maxIdle now bucket = false := by
  have sameIdx : (limiter.cleanup maxIdle now).shardIdx hash key = limiter.shardIdx hash key := by
    simp [Limiter.shardIdx, Limiter.cleanup]
  rw [Limiter.find, Limiter.find, sameIdx, Limiter.cleanup]
  dsimp only
  rw [List.getElem?_map]
  cases limiter.shards[limiter.shardIdx hash key]? with
  | none => simp
  | some buckets =>
    rw [Option.map_some, Option.bind_some, Option.bind_some, lookup_keepEntries,
      Bool.not_eq_true']

theorem find_cleanup_expired {key : Bytes} {bucket : Bucket}
    (found : limiter.find hash key = some bucket) (old : expired maxIdle now bucket = true) :
    (limiter.cleanup maxIdle now).find hash key = none := by
  rw [Option.eq_none_iff_forall_ne_some]
  intro other inside
  obtain ⟨same, young⟩ := (find_cleanup limiter maxIdle now key other).mp inside
  cases found.symm.trans same
  exact Bool.false_ne_true (young.symm.trans old)

theorem length_keepEntries (buckets : StringMap Bucket) (drop : Bucket → Bool) :
    ((keepEntries (fun _ bucket => !drop bucket) buckets).keys.length : Int) =
      buckets.keys.length - (values buckets).countP drop := by
  have split := List.length_eq_countP_add_countP (fun entry => drop entry.2) (l := buckets.entries)
  have kept : (buckets.entries.filter fun entry => !drop entry.2).length =
      buckets.entries.countP fun entry => !drop entry.2 := List.countP_eq_length_filter.symm
  simp only [AList.keys, List.keys, List.length_map, keepEntries, values, pairs, List.map_map,
    List.countP_map, Function.comp_def, Bool.not_eq_true] at split ⊢
  rw [kept]
  have complement : (fun entry : Sigma fun _ : Bytes => Bucket => decide (drop entry.2 = false)) =
      fun entry => !drop entry.2 := by
    funext entry
    cases drop entry.2 <;> rfl
  rw [complement] at split
  omega

theorem Tidy.cleanup (tidy : Tidy hash limiter) (maxIdle : Int) (now : Time) :
    Tidy hash (limiter.cleanup maxIdle now) := by
  have counted : (limiter.cleanup maxIdle now).bucketCount =
      (limiter.cleanup maxIdle now).shards.map fun buckets => (buckets.keys.length : Int) := by
    rw [Limiter.cleanup]
    dsimp only
    rw [tidy.counted, List.map_map, List.zipWith_map_left, List.zipWith_self]
    exact List.map_congr_left fun buckets _ => (length_keepEntries buckets _).symm
  have sameIdx : ∀ key, (limiter.cleanup maxIdle now).shardIdx hash key = limiter.shardIdx hash key :=
    fun key => by simp [Limiter.shardIdx, Limiter.cleanup]
  refine ⟨?_, tidy.rate, tidy.capacity, tidy.positive, counted, ?_, ?_⟩
  · intro none
    exact tidy.shards (List.map_eq_nil_iff.mp none)
  · intro shard buckets found key member
    rw [sameIdx]
    obtain ⟨before, foundBefore, rfl⟩ := Option.map_eq_some_iff.mp (List.getElem?_map.symm.trans found)
    obtain ⟨bucket, lookup⟩ := Option.isSome_iff_exists.mp (AList.lookup_isSome.mpr member)
    have wasThere : key ∈ before :=
      AList.lookup_isSome.mp (by rw [(lookup_keepEntries.mp lookup).1]; rfl)
    exact tidy.placed shard before foundBefore key wasThere
  · have fewer : (limiter.cleanup maxIdle now).total ≤ limiter.total := by
      rw [Limiter.total, Limiter.total, counted, tidy.counted, Limiter.cleanup]
      dsimp only
      rw [List.map_map]
      refine List.sum_le_sum fun buckets _ => ?_
      rw [Function.comp_apply, length_keepEntries]
      omega
    exact fewer.trans tidy.within

theorem Holds.cleanup (holds : Holds hash keys limiter) (maxIdle : Int) (now : Time) :
    Holds hash keys (limiter.cleanup maxIdle now) :=
  ⟨holds.tidy.cleanup maxIdle now, holds.few, fun key bucket found =>
    holds.known key bucket ((find_cleanup limiter maxIdle now key bucket).mp found).1⟩

/-- A bucket that is idle for longer than the limit has refilled. -/
def Refills (rate capacity : Rat) (maxIdle : Int) : Prop :=
  capacity ≤ rate * seconds (maxIdle + 1) ∨ maxIdle = maxDuration

theorem timeSub_le_maxDuration (instant other : Int) : timeSub instant other ≤ maxDuration := by
  unfold timeSub maxDuration
  split
  · omega
  · split <;> omega

theorem timeSub_mono {first second : Int} (other : Int) (le : first ≤ second) :
    timeSub first other ≤ timeSub second other := by
  unfold timeSub maxDuration
  split <;> split <;> (try split) <;> (try split) <;> omega

theorem refill_expired (tidy : Tidy hash limiter) (refills : Refills limiter.rate limiter.capacity maxIdle)
    {bucket : Bucket} (tokens : 0 ≤ bucket.tokens) (access : bucket.lastAccess = bucket.lastRefill)
    (old : expired maxIdle now bucket = true) {later : Time} (after : now ≤ later) :
    limiter.refill bucket later = limiter.capacity := by
  have idle := of_decide_eq_true old
  rw [access] at idle
  rcases refills with refilled | never
  · have longer : maxIdle + 1 ≤ timeSub later bucket.lastRefill :=
      idle.trans_le (timeSub_mono bucket.lastRefill after)
    have elapsed : seconds (maxIdle + 1) ≤ sinceRefill bucket later := by
      rw [sinceRefill_eq]
      exact seconds_mono (longer.trans (le_max_right 0 _))
    have enough := mul_le_mul_of_nonneg_right elapsed tidy.rate
    rw [mul_comm (seconds _)] at enough
    refine min_eq_left ?_
    show limiter.capacity ≤ bucket.tokens + sinceRefill bucket later * limiter.rate
    linarith
  · have bounded := timeSub_le_maxDuration now bucket.lastRefill
    omega

/-- Forgetting what has refilled changes no level. -/
theorem Holds.level_cleanup (holds : Holds hash keys limiter)
    (refills : Refills limiter.rate limiter.capacity maxIdle) (key : Bytes) {later : Time}
    (after : now ≤ later) :
    (limiter.cleanup maxIdle now).level hash key later = limiter.level hash key later := by
  unfold Limiter.level
  cases found : limiter.find hash key with
  | none =>
    have gone : (limiter.cleanup maxIdle now).find hash key = none := by
      rw [Option.eq_none_iff_forall_ne_some]
      intro bucket inside
      rw [((find_cleanup limiter maxIdle now key bucket).mp inside).1] at found
      cases found
    rw [gone]
    rfl
  | some bucket =>
    obtain ⟨-, tokens, access⟩ := holds.known key bucket found
    cases old : expired maxIdle now bucket with
    | false =>
      rw [(find_cleanup limiter maxIdle now key bucket).mpr ⟨found, old⟩]
      rfl
    | true =>
      rw [find_cleanup_expired found old]
      exact (refill_expired holds.tidy refills tokens access old after).symm

/-! ## Runs -/

/-- Two tables that no call can tell apart from now on. -/
structure SameLevels (hash : Bytes → Nat) (keys : Finset Bytes) (maxIdle : Int)
    (cleaned other : State) : Prop where
  clock : cleaned.clock = other.clock
  first : Holds hash keys cleaned.limiter
  second : Holds hash keys other.limiter
  refills : Refills other.limiter.rate other.limiter.capacity maxIdle
  rate : cleaned.limiter.rate = other.limiter.rate
  capacity : cleaned.limiter.capacity = other.limiter.capacity
  level : ∀ key later, other.clock ≤ later →
    cleaned.limiter.level hash key later = other.limiter.level hash key later

variable {cleaned other : State}

theorem level_of_find {first second : Limiter} {key : Bytes} (rate : first.rate = second.rate)
    (capacity : first.capacity = second.capacity)
    (find : first.find hash key = second.find hash key) (now : Time) :
    first.level hash key now = second.level hash key now := by
  unfold Limiter.level
  rw [find]
  cases second.find hash key with
  | none => exact capacity
  | some bucket =>
    unfold Limiter.refill
    rw [rate, capacity]

/-- A call gives the same decision on both. -/
theorem SameLevels.call (same : SameLevels hash keys maxIdle cleaned other) {op : Op}
    (used : op.key ≠ [] → op.key ∈ keys) :
    (step hash cleaned op).2 = (step hash other op).2 ∧
      SameLevels hash keys maxIdle (step hash cleaned op).1 (step hash other op).1 := by
  obtain ⟨clock, first, second, refills, rate, capacity, level⟩ := same
  have nowEq : op.now cleaned = op.now other := by rw [Op.now, Op.now, clock]
  have sooner : other.clock ≤ op.now other := Int.le_add_of_nonneg_right (Int.natCast_nonneg _)
  have later : op.now other ≤ op.now other + op.between :=
    Int.le_add_of_nonneg_right (Int.natCast_nonneg _)
  unfold step
  rw [nowEq]
  dsimp only
  by_cases filled : op.key = []
  · have unchanged : ∀ limiter : Limiter, allow hash limiter op.key (op.now other)
        (op.now other + op.between) op.order = (limiter, denied) :=
      fun _ => if_pos (Or.inr filled)
    rw [unchanged, unchanged]
    exact ⟨rfl, rfl, first, second, refills, rate, capacity, fun key after ends =>
      level key after (sooner.trans (later.trans ends))⟩
  · obtain ⟨afterFirst, firstEq, firstHolds, firstRate, firstCapacity, firstFind⟩ :=
      first.allow op.order filled (used filled) (op.now other) (op.now other + op.between)
    obtain ⟨afterSecond, secondEq, secondHolds, secondRate, secondCapacity, secondFind⟩ :=
      second.allow op.order filled (used filled) (op.now other) (op.now other + op.between)
    rw [level op.key (op.now other) sooner] at firstEq firstFind
    rw [firstEq, secondEq, rate, capacity]
    have sameRate := firstRate.trans (rate.trans secondRate.symm)
    have sameCapacity := firstCapacity.trans (capacity.trans secondCapacity.symm)
    refine ⟨rfl, rfl, firstHolds, secondHolds, ?_, sameRate, sameCapacity, fun key after ends => ?_⟩
    · dsimp only
      rw [secondRate, secondCapacity]
      exact refills
    · dsimp only at ends ⊢
      by_cases isKey : key = op.key
      · refine level_of_find sameRate sameCapacity ?_ after
        rw [firstFind, secondFind, if_pos isKey, if_pos isKey]
      · have firstLevel : afterFirst.level hash key after = cleaned.limiter.level hash key after :=
          level_of_find firstRate firstCapacity (by rw [firstFind, if_neg isKey]) after
        have secondLevel : afterSecond.level hash key after = other.limiter.level hash key after :=
          level_of_find secondRate secondCapacity (by rw [secondFind, if_neg isKey]) after
        rw [firstLevel, secondLevel]
        exact level key after (sooner.trans (later.trans ends))

/-- A cleanup on one side is not noticed. -/
theorem SameLevels.cleanup (same : SameLevels hash keys maxIdle cleaned other) (elapsed : Nat) :
    SameLevels hash keys maxIdle (turn hash maxIdle true cleaned (.cleanup elapsed)).1
      (turn hash maxIdle false other (.cleanup elapsed)).1 := by
  obtain ⟨clock, first, second, refills, rate, capacity, level⟩ := same
  have sooner : other.clock ≤ other.clock + (elapsed : Int) :=
    Int.le_add_of_nonneg_right (Int.natCast_nonneg _)
  refine ⟨congrArg (· + (elapsed : Int)) clock, first.cleanup maxIdle _, second, refills, rate, capacity,
    fun key after ends => ?_⟩
  have passed : cleaned.clock + (elapsed : Int) ≤ after := by rw [clock]; exact ends
  have refillsToo : Refills cleaned.limiter.rate cleaned.limiter.capacity maxIdle := by
    rw [rate, capacity]
    exact refills
  have unnoticed := first.level_cleanup refillsToo key passed
  exact unnoticed.trans (level key after (sooner.trans ends))

theorem find_start {config : Config} (made : newLimiterWithConfig config = .ok limiter) (key : Bytes) :
    limiter.find hash key = none := by
  obtain ⟨normalized, -, rest⟩ := except_bind_eq_ok.mp made
  cases rest
  rw [Limiter.find, Option.bind_eq_none_iff]
  intro buckets inside
  rw [List.eq_of_mem_replicate (List.mem_of_getElem? inside)]
  rfl

theorem holds_start {config normalized : Config} (ok : normalizeConfig config = .ok normalized)
    (made : newLimiterWithConfig config = .ok limiter) (few : (keys.card : Int) < normalized.maxEntries) :
    Holds hash keys limiter := by
  have empty : ∀ key, limiter.find hash key = none := find_start made
  have tidy : Tidy hash limiter := (accounted_start made 0).tidy
  rw [newLimiterWithConfig, ok] at made
  cases made
  refine ⟨tidy, few, fun key bucket found => ?_⟩
  cases (empty key).symm.trans found

/-- For every configuration whose buckets refill within the idle time, and every run of calls and
cleanups with fewer keys than the table has room for: the calls get the decisions that they get
without the cleanups. -/
theorem cleanup_transparent (hash : Bytes → Nat) (config normalized : Config)
    (ok : normalizeConfig config = .ok normalized)
    (made : newLimiterWithConfig config = .ok limiter) (clock : Time) (turns : List Turn)
    (keys : Finset Bytes) (few : (keys.card : Int) < normalized.maxEntries)
    (used : ∀ op, Turn.call op ∈ turns → op.key ≠ [] → op.key ∈ keys)
    (refills : Refills normalized.rate normalized.capacity normalized.maxIdle) :
    (cleaning hash normalized.maxIdle true).trace (start limiter clock) turns =
      (cleaning hash normalized.maxIdle false).trace (start limiter clock) turns := by
  have holds : Holds hash keys limiter := holds_start ok made few
  have sameRefills : Refills limiter.rate limiter.capacity normalized.maxIdle := by
    rw [newLimiterWithConfig, ok] at made
    cases made
    exact refills
  have initial : SameLevels hash keys normalized.maxIdle (start limiter clock) (start limiter clock) :=
    ⟨rfl, holds, holds, sameRefills, rfl, rfl, fun _ _ _ => rfl⟩
  have together : ∀ cleaned other input, (∀ op, input = .call op → op.key ≠ [] → op.key ∈ keys) →
      SameLevels hash keys normalized.maxIdle cleaned other →
      Machine.StepsTogether (cleaning hash normalized.maxIdle true)
        (cleaning hash normalized.maxIdle false) (SameLevels hash keys normalized.maxIdle) cleaned other
        input := by
    intro cleaned other input allowed same
    cases input with
    | call op =>
      obtain ⟨decided, again⟩ := same.call (allowed op rfl)
      exact .inr ⟨_, _, some (step hash other op).2,
        congrArg some (Prod.ext rfl (congrArg some decided)), rfl, again⟩
    | cleanup elapsed => exact .inr ⟨_, _, none, rfl, rfl, same.cleanup elapsed⟩
  exact Machine.trace_eq_of_simulation together initial fun input member op isCall =>
    used op (isCall ▸ member)

/-- One token a second for each key and room for two in its bucket, which is idle after two seconds. -/
def patient : Config where
  rate := 1
  capacity := 2
  maxEntries := 2
  cleanupInterval := 60000000000
  maxIdle := 2000000000
  shards := 1

/-- The same, but with an idle time of one second. -/
def hasty : Config := { patient with maxIdle := 1000000000 }

/-- Two calls, a pause and a cleanup, and two more calls. -/
def twoAndTwo (pause : Nat) : List Turn :=
  [.call (atOnce (ascii "a")), .call (atOnce (ascii "a")), .cleanup pause,
    .call (atOnce (ascii "a")), .call (atOnce (ascii "a"))]

theorem cleanup_transparent_patient :
    (cleaning (fun _ => 0) 2000000000 true).trace (start (oneShard 2 2) 0) (twoAndTwo 2000000001) =
      (cleaning (fun _ => 0) 2000000000 false).trace (start (oneShard 2 2) 0)
        (twoAndTwo 2000000001) := by
  refine cleanup_transparent (fun _ => 0) patient patient
    (by decide +kernel) (by decide +kernel) 0 (twoAndTwo 2000000001) {ascii "a"} (by decide) ?_ (.inl (by decide +kernel))
  intro op member _
  simp only [twoAndTwo, List.mem_cons, Turn.call.injEq, List.not_mem_nil, or_false, reduceCtorEq,
    false_or] at member
  rcases member with rfl | rfl | rfl | rfl <;> exact Finset.mem_singleton_self _

/-- After a little more than a second one token has come back, but a cleanup gives back both. -/
theorem cleanup_refills_hasty :
    newLimiterWithConfig hasty = .ok (oneShard 2 2) ∧
      ((cleaning (fun _ => 0) 1000000000 true).trace (start (oneShard 2 2) 0)
          (twoAndTwo 1000000001)).map (Option.map Decision.allowed) =
        [some true, some true, none, some true, some true] ∧
      ((cleaning (fun _ => 0) 1000000000 false).trace (start (oneShard 2 2) 0)
          (twoAndTwo 1000000001)).map (Option.map Decision.allowed) =
        [some true, some true, none, some true, some false] := by
  decide +kernel

/-! ## Cleanups that come too early -/

theorem decisionFrom_ne {capacity : Int} (positive : 0 < capacity) {rate level : Rat}
    (below : level < capacity) (later : Time) :
    decisionFrom rate capacity capacity later ≠ decisionFrom rate capacity level later := by
  intro same
  have one : (1 : Rat) ≤ capacity := by exact_mod_cast positive
  have enough : 1 ≤ level := (decide_eq_decide.mp (congrArg Decision.allowed same)).mp one
  have left : (spend capacity).floor = (spend level).floor := congrArg Decision.remaining same
  have whole : (capacity : Rat) - 1 = ((capacity - 1 : Int) : Rat) := by push_cast; rfl
  rw [spend, spend, if_pos one, if_pos enough, whole, Rat.floor_intCast] at left
  have fits := Rat.le_floor_iff.mp left.le
  rw [← whole] at fits
  linarith

section Early

variable {state : State} {key : Bytes} {capacity : Int} {rate : Rat} {pause calls : Nat}

/-- The turns that empty a bucket, wait and ask again. -/
def emptyAndAsk (key : Bytes) (calls pause : Nat) : List Turn :=
  List.replicate calls (.call (atOnce key)) ++ [.cleanup pause, .call (atOnce key)]

-- A pause that is longer than the idle time, but too short for a bucket to refill.
variable (filled : key ≠ []) (used : key ∈ keys) (positive : 0 < capacity) (idle : maxIdle < pause)
  (bounded : pause ≤ maxDuration) (early : rate * seconds pause < capacity)

include filled used positive idle bounded early

/-- After the pause a bucket that was empty is not full, but it is if it was forgotten. -/
theorem trace_ne_of_empty (holds : Holds hash keys state.limiter) (rateEq : state.limiter.rate = rate)
    (capacityEq : state.limiter.capacity = capacity)
    (found : state.limiter.find hash key = some ⟨0, state.clock, state.clock⟩) :
    (cleaning hash maxIdle true).trace state (emptyAndAsk key 0 pause) ≠
      (cleaning hash maxIdle false).trace state (emptyAndAsk key 0 pause) := by
  intro same
  generalize nowEq : state.clock + (pause : Int) = now
  have waited : timeSub now state.clock = pause := by
    rw [← nowEq, timeSub]
    split_ifs <;> omega
  have old : expired maxIdle now ⟨0, state.clock, state.clock⟩ = true := by
    rw [expired, waited]
    exact decide_eq_true idle
  have full : (state.limiter.cleanup maxIdle now).level hash key now = capacity := by
    rw [Limiter.level, find_cleanup_expired found old]
    exact capacityEq
  have low : state.limiter.level hash key now < capacity := by
    have elapsed : 0 ≤ seconds pause := by
      unfold seconds
      positivity
    rw [Limiter.level, found]
    dsimp only [Limiter.refill]
    rw [waited, if_neg elapsed.not_gt, rateEq, zero_add, mul_comm]
    exact min_lt_of_right_lt early
  obtain ⟨_, cleaned, -⟩ := (holds.cleanup maxIdle now).allow asListed filled used now now
  obtain ⟨_, kept, -⟩ := holds.allow asListed filled used now now
  simp only [emptyAndAsk, List.replicate_zero, List.nil_append, Machine.trace, cleaning, turn, step,
    if_true, Bool.false_eq_true, if_false, List.cons.injEq, Option.some.injEq, and_true, true_and,
    Op.now, atOnce, Nat.cast_zero, add_zero, nowEq, cleaned, kept, full] at same
  change decisionFrom state.limiter.rate state.limiter.capacity _ _ = _ at same
  rw [capacityEq] at same
  exact decisionFrom_ne positive low _ same

/-- From a bucket with some tokens, or none yet that has all: the calls take them one by one. -/
theorem trace_ne_of_early (few : (calls : Rat) ≤ capacity) (holds : Holds hash keys state.limiter)
    (rateEq : state.limiter.rate = rate) (capacityEq : state.limiter.capacity = capacity)
    (held : (state.limiter.find hash key).getD ⟨capacity, state.clock, state.clock⟩ =
      ⟨calls, state.clock, state.clock⟩) :
    (cleaning hash maxIdle true).trace state (emptyAndAsk key calls pause) ≠
      (cleaning hash maxIdle false).trace state (emptyAndAsk key calls pause) := by
  induction calls generalizing state with
  | zero =>
    refine trace_ne_of_empty filled used positive idle bounded early holds rateEq capacityEq ?_
    cases found : state.limiter.find hash key with
    | none =>
      rw [found] at held
      have zero : (capacity : Rat) = 0 := congrArg Bucket.tokens held
      exact absurd (Int.cast_eq_zero.mp zero) positive.ne'
    | some bucket =>
      rw [found] at held
      exact congrArg some held
  | succ calls ih =>
    intro same
    have level : state.limiter.level hash key state.clock = (calls + 1 : Nat) := by
      unfold Limiter.level
      cases found : state.limiter.find hash key with
      | none =>
        rw [found] at held
        exact capacityEq.trans (congrArg Bucket.tokens held)
      | some bucket =>
        rw [found, Option.getD_some] at held
        rw [held]
        exact refill_now (few.trans capacityEq.ge)
    obtain ⟨after, called, kept, sameRate, sameCapacity, find⟩ :=
      holds.allow asListed filled used state.clock state.clock
    rw [emptyAndAsk, List.replicate_succ, List.cons_append, ← emptyAndAsk] at same
    simp only [Machine.trace, cleaning, turn, step, Op.now, atOnce, Nat.cast_zero, add_zero, called,
      List.cons.injEq, true_and] at same
    rw [Nat.cast_succ] at few level
    refine ih (by linarith) kept (sameRate.trans rateEq) (sameCapacity.trans capacityEq) ?_ same
    have enough : (1 : Rat) ≤ calls + 1 := le_add_of_nonneg_left (Nat.cast_nonneg calls)
    rw [find, if_pos rfl, Option.getD_some, level, spend, if_pos enough, add_sub_cancel_right]

end Early

/-- With room for a key and an idle time that is a duration: if no run shows the cleanups, then buckets
refill within the idle time. -/
theorem refills_of_transparent (hash : Bytes → Nat) (config normalized : Config)
    (ok : normalizeConfig config = .ok normalized)
    (made : newLimiterWithConfig config = .ok limiter) (clock : Time)
    (room : 1 < normalized.maxEntries) (isDuration : normalized.maxIdle ≤ maxDuration)
    (same : ∀ (turns : List Turn) (keys : Finset Bytes), (keys.card : Int) < normalized.maxEntries →
      (∀ op, Turn.call op ∈ turns → op.key ≠ [] → op.key ∈ keys) →
      (cleaning hash normalized.maxIdle true).trace (start limiter clock) turns =
        (cleaning hash normalized.maxIdle false).trace (start limiter clock) turns) :
    Refills normalized.rate normalized.capacity normalized.maxIdle := by
  by_contra early
  obtain ⟨early, never⟩ := not_or.mp early
  obtain ⟨-, capacity, -, maxIdle, -⟩ := positive_of_normalizeConfig ok
  have few : ((({[0]} : Finset Bytes).card : Nat) : Int) < normalized.maxEntries := room
  have holds : Holds hash {[0]} limiter := holds_start ok made few
  have empty : limiter.find hash [0] = none := find_start made [0]
  obtain ⟨calls, callsEq⟩ := Int.eq_ofNat_of_zero_le capacity.le
  obtain ⟨pause, pauseEq⟩ := Int.eq_ofNat_of_zero_le (Int.add_nonneg maxIdle.le Int.one_nonneg)
  rw [newLimiterWithConfig, ok] at made
  cases made
  refine trace_ne_of_early (List.cons_ne_nil 0 []) (Finset.mem_singleton_self _) capacity
    (by omega) (by omega) (pauseEq ▸ not_le.mp early) (by rw [callsEq]; rfl) holds rfl rfl ?_
    (same (emptyAndAsk [0] calls pause) {[0]} few ?_)
  · rw [start, empty, Option.getD_none, callsEq]
    rfl
  · intro op member _
    simp only [emptyAndAsk, List.mem_append, List.mem_replicate, List.mem_cons, Turn.call.injEq,
      reduceCtorEq, List.not_mem_nil, or_false, false_or] at member
    rcases member with ⟨-, rfl⟩ | rfl <;> exact Finset.mem_singleton_self _

end Plumego.Security.Abuse
