/-
Module: Plumego.Security.AbuseLimiter
Purpose: The abuse limiter: one token bucket per key in a sharded table, with the guard that keeps
  the number of keys within its limit, as a run of `Allow` calls one after the other.
Trusted boundary: tokens, rates and seconds are exact rational numbers in place of `float64`. The
  hash of a key is left open, and so is the order of a `range` loop over a map. The goroutine that
  removes idle keys does not run. The clock does not go back.
Main exports: Config, normalizeConfig, Limiter, newLimiterWithConfig, allow, Op, step, machine
-/
import Mathlib.Algebra.Order.Floor.Ring
import Mathlib.Data.Rat.Floor
import Plumego.Go.Maps
import Plumego.Go.Time
import Plumego.Lib.Machine

namespace Plumego.Security.Abuse

open Plumego.Go Plumego.Lib

/-! ## Configuration -/

/-- `Config`, but for the clock. -/
structure Config where
  rate : Rat
  capacity : Int
  maxEntries : Int
  cleanupInterval : Int
  maxIdle : Int
  shards : Int
deriving DecidableEq, Repr

/-- `DefaultConfig`. -/
def defaultConfig : Config where
  rate := 100
  capacity := 200
  maxEntries := 100000
  cleanupInterval := 60000000000
  maxIdle := 300000000000
  shards := 16

/-- `ErrInvalidConfig`. -/
def errInvalidConfig : GoError := .new "abuse: invalid limiter config"

/-- `normalizeConfig`. The rate in the text of the first error is left out. -/
def normalizeConfig (config : Config) : Except GoError Config :=
  if config.rate < 0 then
    .error (.wrapf "%w: rate must be positive, got %f" [] errInvalidConfig)
  else if config.capacity < 0 then
    .error (.wrapf "%w: capacity must be positive, got %d" [.int config.capacity] errInvalidConfig)
  else if config.maxEntries < 0 then
    .error (.wrapf "%w: max_entries must be positive, got %d" [.int config.maxEntries]
      errInvalidConfig)
  else if config.cleanupInterval < 0 then
    .error (.wrapf "%w: cleanup_interval must be positive, got %v" [.int config.cleanupInterval]
      errInvalidConfig)
  else if config.maxIdle < 0 then
    .error (.wrapf "%w: max_idle must be positive, got %v" [.int config.maxIdle] errInvalidConfig)
  else if config.shards < 0 then
    .error (.wrapf "%w: shards must be positive, got %d" [.int config.shards] errInvalidConfig)
  else
    .ok
      { rate := if config.rate = 0 then defaultConfig.rate else config.rate
        capacity := if config.capacity = 0 then defaultConfig.capacity else config.capacity
        maxEntries := if config.maxEntries = 0 then defaultConfig.maxEntries else config.maxEntries
        cleanupInterval :=
          if config.cleanupInterval = 0 then defaultConfig.cleanupInterval
          else config.cleanupInterval
        maxIdle := if config.maxIdle = 0 then defaultConfig.maxIdle else config.maxIdle
        shards := if config.shards = 0 then defaultConfig.shards else config.shards }

/-! ## The table -/

/-- `bucket`. -/
structure Bucket where
  tokens : Rat
  lastRefill : Time
  lastAccess : Time
deriving DecidableEq, Repr

/-- `Limiter`: the shards, and beside them the counter of each shard. -/
structure Limiter where
  shards : List (StringMap Bucket)
  bucketCount : List Int
  rate : Rat
  capacity : Rat
  maxEntries : Int
deriving DecidableEq

/-- `NewLimiterWithConfig`. -/
def newLimiterWithConfig (config : Config) : Except GoError Limiter := do
  let normalized ← normalizeConfig config
  return {
    shards := List.replicate normalized.shards.toNat ∅
    bucketCount := List.replicate normalized.shards.toNat 0
    rate := normalized.rate
    capacity := normalized.capacity
    maxEntries := normalized.maxEntries }

/-- `shardCounter.Total`. -/
def Limiter.total (limiter : Limiter) : Int := limiter.bucketCount.sum

/-- The guard of the number of keys. -/
def Limiter.full (limiter : Limiter) : Bool :=
  decide (0 < limiter.maxEntries) && decide (limiter.maxEntries ≤ limiter.total)

/-- The shard of a key. -/
def Limiter.shardIdx (limiter : Limiter) (hash : Bytes → Nat) (key : Bytes) : Nat :=
  hash key % limiter.shards.length

/-- An entry of the table: its shard, its key and when it was last accessed. -/
structure Entry where
  shard : Nat
  key : Bytes
  lastAccess : Time
deriving DecidableEq, Repr

/-- One round of the search for the oldest entry: the first of all, or one accessed before. -/
def older (shard : Nat) (oldest : Option Entry) (pair : Bytes × Bucket) : Option Entry :=
  match oldest with
  | none => some ⟨shard, pair.1, pair.2.lastAccess⟩
  | some entry =>
    if pair.2.lastAccess < entry.lastAccess then some ⟨shard, pair.1, pair.2.lastAccess⟩
    else some entry

/-- Phase 1 of `evictOldestGlobal`: the search through all shards. -/
def oldestEntry (order : MapOrder Bucket) (shards : List (StringMap Bucket)) : Option Entry :=
  shards.zipIdx.foldl
    (fun oldest shard => (order.list shard.1).foldl (older shard.2) oldest) none

/-- Delete a key from a shard, and count it under an index. -/
def Limiter.delete (limiter : Limiter) (shard idx : Nat) (key : Bytes) : Limiter :=
  { limiter with
    shards := limiter.shards.modify shard fun buckets => buckets.erase key
    bucketCount := limiter.bucketCount.modify idx fun count => count - 1 }

/-- `evictOldestGlobal`. -/
def evictOldestGlobal (hash : Bytes → Nat) (limiter : Limiter) (order : MapOrder Bucket) :
    Limiter :=
  match oldestEntry order limiter.shards with
  | none => limiter
  | some entry =>
    if entry.key = [] then limiter
    else
      -- phase 2: the entry is looked up again
      match (limiter.shards[entry.shard]?).bind fun buckets => buckets.lookup entry.key with
      | none => limiter
      | some bucket =>
        if bucket.lastAccess = entry.lastAccess then
          limiter.delete entry.shard (limiter.shardIdx hash entry.key) entry.key
        else limiter

/-- `evictOldestLocked`. -/
def evictOldestLocked (limiter : Limiter) (order : MapOrder Bucket) (shard : Nat) : Limiter :=
  match limiter.shards[shard]? with
  | none => limiter
  | some buckets =>
    match (order.list buckets).foldl (older shard) none with
    | none => limiter
    | some entry =>
      if entry.key = [] then limiter else limiter.delete shard shard entry.key

/-! ## Allow -/

/-- `Decision`. -/
structure Decision where
  allowed : Bool
  limit : Int
  remaining : Int
  reset : Time
  retryAfter : Int
deriving DecidableEq, Repr

/-- The decision without a bucket. -/
def denied : Decision where
  allowed := false
  limit := 0
  remaining := 0
  reset := zeroTime
  retryAfter := 0

/-- `Duration.Seconds`. -/
def seconds (duration : Int) : Rat := (duration : Rat) / 1000000000

/-- `durationFromSeconds`. -/
def durationFromSeconds (value : Rat) : Int :=
  if value ≤ 0 then 0
  else if seconds maxDuration < value then maxDuration
  else (value * 1000000000).floor

/-- The tokens of a bucket at an instant, before the call takes one. -/
def Limiter.refill (limiter : Limiter) (bucket : Bucket) (now : Time) : Rat :=
  let elapsed := seconds (timeSub now bucket.lastRefill)
  let elapsed := if elapsed < 0 then 0 else elapsed
  min limiter.capacity (bucket.tokens + elapsed * limiter.rate)

/-- The bucket of a key, made where there is none, with the table it is in. -/
def Limiter.bucketFor (limiter : Limiter) (hash : Bytes → Nat) (key : Bytes) (now : Time)
    (order : MapOrder Bucket) : Limiter × Bucket :=
  let shard := limiter.shardIdx hash key
  match (limiter.shards[shard]?).bind fun buckets => buckets.lookup key with
  | some bucket => (limiter, bucket)
  | none =>
    let limiter := if limiter.full then evictOldestLocked limiter order shard else limiter
    let bucket : Bucket := ⟨limiter.capacity, now, now⟩
    ({ limiter with
        shards := limiter.shards.modify shard fun buckets => buckets.insert key bucket
        bucketCount := limiter.bucketCount.modify shard fun count => count + 1 },
      bucket)

/-- `Allow`, with the two readings of the clock. -/
def allow (hash : Bytes → Nat) (limiter : Limiter) (key : Bytes) (now later : Time)
    (order : MapOrder Bucket) : Limiter × Decision :=
  if limiter.shards.isEmpty ∨ key = [] then (limiter, denied)
  else
    let limiter := if limiter.full then evictOldestGlobal hash limiter order else limiter
    let (limiter, bucket) := limiter.bucketFor hash key now order
    let tokens := limiter.refill bucket now
    let allowed := decide (1 ≤ tokens)
    let tokens := if allowed then tokens - 1 else tokens
    let limiter :=
      { limiter with
        shards := limiter.shards.modify (limiter.shardIdx hash key) fun buckets =>
          buckets.insert key ⟨tokens, now, now⟩ }
    (limiter,
      { allowed := allowed
        limit := limiter.capacity.floor
        remaining := tokens.floor
        reset :=
          if 0 < limiter.rate then
            later + durationFromSeconds (max 0 (limiter.capacity - tokens) / limiter.rate)
          else later
        retryAfter :=
          if !allowed ∧ 0 < limiter.rate then
            durationFromSeconds (max 0 (1 - tokens) / limiter.rate)
          else 0 })

/-! ## Runs -/

/-- A call that was made. -/
structure Record where
  key : Bytes
  time : Time
  allowed : Bool
deriving DecidableEq, Repr

/-- The limiter, the clock and a record of the calls, which no step reads. -/
structure State where
  limiter : Limiter
  clock : Time
  records : List Record

/-- A call of `Allow`: the time that passes before it and between its two readings of the clock. -/
structure Op where
  elapsed : Nat
  key : Bytes
  between : Nat
  order : MapOrder Bucket

/-- When a call reads the clock first. -/
def Op.now (op : Op) (state : State) : Time := state.clock + op.elapsed

/-- One call. -/
def step (hash : Bytes → Nat) (state : State) (op : Op) : State × Decision :=
  let now := op.now state
  let later := now + op.between
  let (limiter, decision) := allow hash state.limiter op.key now later op.order
  ({ limiter := limiter
     clock := later
     records := state.records ++ [⟨op.key, now, decision.allowed⟩] },
    decision)

/-- The limiter with a hash. -/
def machine (hash : Bytes → Nat) : Machine State Op Decision where
  step := fun state op => some (step hash state op)

end Plumego.Security.Abuse
