/-
Module: Plumego.Cache.Memory
Purpose: The in-memory cache with its counters: the calls as sections that run
  alone, and the machine of their interleavings.
Trusted boundary: the byte count is a natural number, since the values it counts
  are held in memory; times are compared as instants; `encoding/gob` is a
  parameter. A cache that `NewMemoryCacheWithConfig` has made always has its stop
  channel.
Main exports: MemoryCache, Section, Result, cacheMachine
-/
import Plumego.Go.Maps
import Plumego.Go.Numbers
import Plumego.Go.Utf8
import Plumego.Lib.Machine

namespace Plumego.Cache

open Go Lib

/-! ## Errors and configuration -/

/-- `ErrNotFound`. -/
def errNotFound : GoError := .new "cache: key not found"

/-- `ErrInvalidConfig`. -/
def errInvalidConfig : GoError := .new "cache: invalid config"

/-- `ErrCacheFull`. -/
def errCacheFull : GoError := .new "cache: cache full"

/-- `ErrKeyTooLong`. -/
def errKeyTooLong : GoError := .new "cache: key too long"

/-- `ErrInvalidKey`. -/
def errInvalidKey : GoError := .new "cache: key is required"

/-- `ErrNotInteger`. -/
def errNotInteger : GoError := .new "cache: value is not an integer"

/-- `ErrCacheClosed`. -/
def errCacheClosed : GoError := .new "cache: cache is closed"

/-- `Config`. -/
structure Config where
  maxKeyLength : Int := 0
  maxMemoryUsage : Nat := 0
  cleanupInterval : Int := 0
  defaultTTL : Int := 0

/-- `Validate`. -/
def Config.validate (config : Config) : Option GoError :=
  if config.maxKeyLength < 0 then
    some (.wrapf "%w: MaxKeyLength cannot be negative" [] errInvalidConfig)
  else if config.cleanupInterval < 0 then
    some (.wrapf "%w: CleanupInterval cannot be negative" [] errInvalidConfig)
  else if config.defaultTTL < 0 then
    some (.wrapf "%w: DefaultTTL cannot be negative" [] errInvalidConfig)
  else none

/-! ## The cache -/

/-- `cacheItem`. -/
structure Item where
  value : Bytes
  expiration : Time := zeroTime
deriving DecidableEq, Repr

/-- `expiredAt`. -/
def Item.expiredAt (item : Item) (now : Time) : Bool :=
  !isZero item.expiration && item.expiration ≤ now

/-- `MemoryCache`, with the number of clock readings so far and the removals of
expired items that wait for the write mutex. -/
structure MemoryCache where
  config : Config
  store : StringMap Item := ∅
  size : Int := 0
  memory : Nat := 0
  closed : Bool := false
  readings : Nat := 0
  pending : List (Bytes × Item) := []

/-- What `ctx.Err()` gives at the checks of a call. -/
abbrev Context := Nat → Option GoError

/-- `context.Background()`. -/
def background : Context := fun _ => none

namespace MemoryCache

/-- `NewMemoryCacheWithConfig`. -/
def new (config : Config) : Except GoError MemoryCache :=
  match config.validate with
  | some failure => .error failure
  | none => .ok { config }

/-- `operationErr`. -/
def operationErr (cache : MemoryCache) (contextErr : Option GoError) : Option GoError :=
  match contextErr with
  | some failure => some failure
  | none => if cache.closed then some errCacheClosed else none

/-- The position of the first control character. -/
def controlPosition (key : Bytes) : Option Nat :=
  key.findIdx? fun byte => byte < 0x20 || byte == 0x7F

/-- `validateKey`. -/
def validateKey (cache : MemoryCache) (key : Bytes) : Option GoError :=
  if key = [] then some errInvalidKey
  else if 0 < cache.config.maxKeyLength ∧ cache.config.maxKeyLength < key.length then
    some (.wrapf "%w: key length %d exceeds maximum %d"
      [.int key.length, .int cache.config.maxKeyLength] errKeyTooLong)
  else
    match controlPosition key with
    | some position =>
      some (.wrapf "%w: control character at position %d" [.int position] errInvalidKey)
    | none => none

/-- The checks of a call that reads. -/
def readErr (cache : MemoryCache) (ctx : Context) (key : Bytes) : Option GoError :=
  (cache.operationErr (ctx 0)).or (cache.validateKey key)

/-- The checks of a call that writes, the last one by `lockWriteOperation`. -/
def writeErr (cache : MemoryCache) (ctx : Context) (key : Bytes) : Option GoError :=
  (cache.readErr ctx key).or (cache.operationErr (ctx 1))

/-- `adjustStoredValue`. -/
def adjustStoredValue (cache : MemoryCache) (deltaSize deltaMemory : Int) : MemoryCache :=
  { cache with
    size := if cache.size + deltaSize < 0 then 0 else cache.size + deltaSize
    memory :=
      if deltaMemory < 0 then
        if deltaMemory.natAbs ≤ cache.memory then cache.memory - deltaMemory.natAbs else 0
      else cache.memory + deltaMemory.toNat }

/-- `checkMemoryLimit`. -/
def checkMemoryLimit (cache : MemoryCache) (valueSize existingSize : Nat) : Option GoError :=
  if cache.config.maxMemoryUsage = 0 then none
  else
    let current := if existingSize ≤ cache.memory then cache.memory - existingSize else cache.memory
    if cache.config.maxMemoryUsage < current + valueSize then
      some (.wrapf "%w: memory limit exceeded (current: %d, adding: %d, limit: %d)"
        [.int current, .int valueSize, .int cache.config.maxMemoryUsage] errCacheFull)
    else none

/-- `expirationForTTL`. -/
def expirationForTTL (cache : MemoryCache) (ttl : Int) (now : Time) : Time :=
  if 0 < ttl then now + ttl
  else if 0 < cache.config.defaultTTL then now + cache.config.defaultTTL
  else zeroTime

section Clock

variable (clock : Nat → Time)

/-- The next reading of the clock. -/
def now (cache : MemoryCache) : Time := clock cache.readings

/-- The cache after a reading of the clock. -/
def tick (cache : MemoryCache) : MemoryCache := { cache with readings := cache.readings + 1 }

/-- `removeExpiredItemLocked`. -/
def removeExpiredItemLocked (cache : MemoryCache) (key : Bytes) (item : Item) : MemoryCache :=
  if item.expiredAt (cache.now clock) then
    match cache.store.lookup key with
    | none => cache.tick
    | some current =>
      if current.expiration ≠ item.expiration ∨ current.value ≠ item.value then cache.tick
      else
        ({ cache.tick with store := cache.store.erase key }).adjustStoredValue (-1)
          (-(item.value.length : Int))
  else cache.tick

/-- `expired` on the item of a key, with its removal where it is: the item that
is left, if any. -/
def loadLive (cache : MemoryCache) (key : Bytes) : MemoryCache × Option Item :=
  match cache.store.lookup key with
  | none => (cache, none)
  | some item =>
    if item.expiredAt (cache.now clock) then
      (cache.tick.removeExpiredItemLocked clock key item, none)
    else (cache.tick, some item)

/-- `setLockedWithExpiration`. -/
def setLockedWithExpiration (cache : MemoryCache) (key value : Bytes) (expiration : Time) :
    MemoryCache × Option GoError :=
  match cache.loadLive clock key with
  | (loaded, existing) =>
    let existingSize := (existing.map fun item => item.value.length).getD 0
    match loaded.checkMemoryLimit value.length existingSize with
    | some failure => (loaded, some failure)
    | none =>
      (({ loaded with store := loaded.store.insert key { value, expiration } }).adjustStoredValue
        (if existing.isSome then 0 else 1) ((value.length : Int) - existingSize), none)

/-- `Set`. -/
def set (cache : MemoryCache) (ctx : Context) (key value : Bytes) (ttl : Int) :
    MemoryCache × Option GoError :=
  match cache.writeErr ctx key with
  | some failure => (cache, some failure)
  | none =>
    cache.tick.setLockedWithExpiration clock key value
      (cache.expirationForTTL ttl (cache.now clock))

/-- `Delete`. -/
def delete (cache : MemoryCache) (ctx : Context) (key : Bytes) : MemoryCache × Option GoError :=
  match cache.writeErr ctx key with
  | some failure => (cache, some failure)
  | none =>
    match cache.store.lookup key with
    | none => (cache, none)
    | some item =>
      (({ cache with store := cache.store.erase key }).adjustStoredValue (-1)
        (-(item.value.length : Int)), none)

/-- The body of the range loop of `Clear`. -/
def clearEntry (cache : MemoryCache) (entry : Bytes × Item) : MemoryCache :=
  ({ cache with store := cache.store.erase entry.1 }).adjustStoredValue (-1)
    (-(entry.2.value.length : Int))

/-- `Clear`. -/
def clear (cache : MemoryCache) (ctx : Context) : MemoryCache × Option GoError :=
  match (cache.operationErr (ctx 0)).or (cache.operationErr (ctx 1)) with
  | some failure => (cache, some failure)
  | none => ((pairs cache.store).foldl clearEntry cache, none)

/-- `decodeInt64`, with `encoding/gob` for texts that are no decimal number. -/
def decodeInt64 (gob : Bytes → Option Int) (data : Bytes) : Option Int :=
  let trimmed := trimSpace data
  if trimmed = [] then none
  else
    match parseInt64 trimmed with
    | some value => some value
    | none => gob data

/-- `addInt64`. -/
def addInt64 (value delta : Int) : Except GoError Int :=
  if 0 < delta ∧ 2 ^ 63 - 1 - delta < value then
    .error (.wrapf "%w: integer overflow" [] errNotInteger)
  else if delta < 0 ∧ value < -2 ^ 63 - delta then
    .error (.wrapf "%w: integer overflow" [] errNotInteger)
  else .ok (value + delta)

/-- `Incr`. -/
def incr (gob : Bytes → Option Int) (cache : MemoryCache) (ctx : Context) (key : Bytes)
    (delta : Int) : MemoryCache × Except GoError Int :=
  match cache.writeErr ctx key with
  | some failure => (cache, .error failure)
  | none =>
    match cache.tick.loadLive clock key with
    | (loaded, existing) =>
      let expiration := (existing.map Item.expiration).getD
        (cache.expirationForTTL 0 (cache.now clock))
      match existing.elim (some 0) fun item => decodeInt64 gob item.value with
      | none => (loaded, .error errNotInteger)
      | some current =>
        match addInt64 current delta with
        | .error failure => (loaded, .error failure)
        | .ok value =>
          match loaded.setLockedWithExpiration clock key (formatInt value) expiration with
          | (stored, some failure) => (stored, .error failure)
          | (stored, none) => (stored, .ok value)

/-- `Decr`. -/
def decr (gob : Bytes → Option Int) (cache : MemoryCache) (ctx : Context) (key : Bytes)
    (delta : Int) : MemoryCache × Except GoError Int :=
  if delta = -2 ^ 63 then (cache, .error (.wrapf "%w: integer overflow" [] errNotInteger))
  else cache.incr clock gob ctx key (-delta)

/-- `Append`. -/
def append (cache : MemoryCache) (ctx : Context) (key data : Bytes) :
    MemoryCache × Option GoError :=
  match cache.writeErr ctx key with
  | some failure => (cache, some failure)
  | none =>
    match cache.tick.loadLive clock key with
    | (loaded, existing) =>
      let expiration := (existing.map Item.expiration).getD
        (cache.expirationForTTL 0 (cache.now clock))
      loaded.setLockedWithExpiration clock key
        ((existing.map Item.value).getD [] ++ data) expiration

/-- What `Get`, `Exists` and `cleanupExpired` do with an expired item they found:
`removeExpiredItem` checks it once more and waits for the write mutex. -/
def awaitRemoval (cache : MemoryCache) (key : Bytes) (item : Item) : MemoryCache :=
  if item.expiredAt (cache.now clock) then
    { cache.tick with pending := cache.pending ++ [(key, item)] }
  else cache.tick

/-- `Get` up to the removal of an expired item. -/
def get (cache : MemoryCache) (ctx : Context) (key : Bytes) : MemoryCache × Except GoError Bytes :=
  match cache.readErr ctx key with
  | some failure => (cache, .error failure)
  | none =>
    match cache.store.lookup key with
    | none => (cache, .error errNotFound)
    | some item =>
      if item.expiredAt (cache.now clock) then
        (cache.tick.awaitRemoval clock key item, .error errNotFound)
      else (cache.tick, .ok item.value)

/-- `Exists` up to the removal of an expired item. -/
def existsKey (cache : MemoryCache) (ctx : Context) (key : Bytes) :
    MemoryCache × Except GoError Bool :=
  match cache.readErr ctx key with
  | some failure => (cache, .error failure)
  | none =>
    match cache.store.lookup key with
    | none => (cache, .ok false)
    | some item =>
      if item.expiredAt (cache.now clock) then
        (cache.tick.awaitRemoval clock key item, .ok false)
      else (cache.tick, .ok true)

/-- The visit of one key by the range loop of `cleanupExpired`. -/
def visit (cache : MemoryCache) (key : Bytes) : MemoryCache :=
  match cache.store.lookup key with
  | none => cache
  | some item => cache.awaitRemoval clock key item

/-- A removal gets the write mutex. -/
def removePending (cache : MemoryCache) (index : Nat) : Option MemoryCache :=
  match cache.pending[index]? with
  | none => none
  | some (key, item) =>
    some (({ cache with pending := cache.pending.eraseIdx index }).removeExpiredItemLocked clock
      key item)

end Clock

/-- `Close`. -/
def close (cache : MemoryCache) : MemoryCache := { cache with closed := true }

end MemoryCache

/-! ## Interleavings -/

/-- The sections of the calls: each runs alone. -/
inductive Section where
  | get (ctx : Context) (key : Bytes)
  | existsKey (ctx : Context) (key : Bytes)
  | set (ctx : Context) (key value : Bytes) (ttl : Int)
  | delete (ctx : Context) (key : Bytes)
  | clear (ctx : Context)
  | incr (ctx : Context) (key : Bytes) (delta : Int)
  | decr (ctx : Context) (key : Bytes) (delta : Int)
  | append (ctx : Context) (key data : Bytes)
  | visit (key : Bytes)
  | remove (index : Nat)
  | close

/-- What a section's call returns; a clean-up, a removal and `Close` return
nothing. -/
inductive Result where
  | value (result : Except GoError Bytes)
  | found (result : Except GoError Bool)
  | number (result : Except GoError Int)
  | done (failure : Option GoError)
  | silent
deriving DecidableEq

/-- The call returned an error. -/
def Result.failed : Result → Bool
  | .value (.error _) => true
  | .value (.ok _) => false
  | .found (.error _) => true
  | .found (.ok _) => false
  | .number (.error _) => true
  | .number (.ok _) => false
  | .done (some _) => true
  | .done none => false
  | .silent => false

/-- One section of one call. -/
def MemoryCache.step (gob : Bytes → Option Int) (clock : Nat → Time) (cache : MemoryCache) :
    Section → Option (MemoryCache × Result)
  | .get ctx key =>
    let result := cache.get clock ctx key
    some (result.1, .value result.2)
  | .existsKey ctx key =>
    let result := cache.existsKey clock ctx key
    some (result.1, .found result.2)
  | .set ctx key value ttl =>
    let result := cache.set clock ctx key value ttl
    some (result.1, .done result.2)
  | .delete ctx key =>
    let result := cache.delete ctx key
    some (result.1, .done result.2)
  | .clear ctx =>
    let result := cache.clear ctx
    some (result.1, .done result.2)
  | .incr ctx key delta =>
    let result := cache.incr clock gob ctx key delta
    some (result.1, .number result.2)
  | .decr ctx key delta =>
    let result := cache.decr clock gob ctx key delta
    some (result.1, .number result.2)
  | .append ctx key data =>
    let result := cache.append clock ctx key data
    some (result.1, .done result.2)
  | .visit key => some (cache.visit clock key, .silent)
  | .remove index => (cache.removePending clock index).map fun next => (next, .silent)
  | .close => some (cache.close, .silent)

/-- The cache as a machine: its runs are the interleavings of sections. -/
def cacheMachine (gob : Bytes → Option Int) (clock : Nat → Time) :
    Machine MemoryCache Section Result where
  step := MemoryCache.step gob clock

end Plumego.Cache
