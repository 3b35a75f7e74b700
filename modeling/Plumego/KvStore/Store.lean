/-
Module: Plumego.KvStore.Store
Purpose: The embedded key-value store that keeps its whole map in one state
  file: `SetContext`, `GetContext`, `DeleteContext`, expiry, eviction of the
  oldest entries, the file replacement of `persistState`, and opening.
Trusted boundary: `encoding/json` is a parameter; the clock is the list of its
  readings; a context is what its checks return; a failing file operation is an
  input of the call. Temporary files and locks are not modelled; every call
  runs alone.
Main exports: StateCodec, Store, load, newKVStore, Call, Store.apply
-/
import Plumego.Go.Maps
import Plumego.Go.Time
import Plumego.Go.Utf8
import Plumego.Lib.Machine

namespace Plumego.KvStore

open Go Lib

/-! ## Errors and configuration -/

/-- `ErrKeyNotFound`. -/
def errKeyNotFound : GoError := .new "kv: key not found"

/-- `ErrKeyExpired`. -/
def errKeyExpired : GoError := .new "kv: key expired"

/-- `ErrInvalidKey`. -/
def errInvalidKey : GoError := .new "kv: key is required"

/-- `ErrStoreClosed`. -/
def errStoreClosed : GoError := .new "kv: store is closed"

/-- `ErrValueTooLarge`. -/
def errValueTooLarge : GoError := .new "kv: value too large"

/-- `ErrCorruptState`. -/
def errCorruptState : GoError := .new "kv: corrupt state"

/-- `Config`. -/
structure Config where
  dataDir : Bytes
  maxEntries : Int := 0
  maxMemoryMB : Int := 0
deriving DecidableEq, Repr

/-- `defaultMaxEntries`. -/
def defaultMaxEntries : Int := 100000

/-- `defaultMaxMemoryMB`. -/
def defaultMaxMemoryMB : Int := 200

/-- `setConfigDefaults`. -/
def setConfigDefaults (cfg : Config) : Config where
  dataDir := trimSpace cfg.dataDir
  maxEntries := if cfg.maxEntries = 0 then defaultMaxEntries else cfg.maxEntries
  maxMemoryMB := if cfg.maxMemoryMB = 0 then defaultMaxMemoryMB else cfg.maxMemoryMB

/-- `validateConfig`. -/
def validateConfig (cfg : Config) : Option GoError :=
  if trimSpace cfg.dataDir = [] then some (.new "kv: data dir is required")
  else if cfg.maxEntries ≤ 0 then some (.new "kv: max entries must be positive")
  else if cfg.maxMemoryMB ≤ 0 then some (.new "kv: max memory must be positive")
  else none

/-- `maxMemoryBytes`. -/
def Config.maxMemoryBytes (cfg : Config) : Int := wrapInt64 (cfg.maxMemoryMB * 1024 * 1024)

/-! ## Entries and the map -/

/-- `entry`. -/
structure Entry where
  value : Bytes
  expireAt : Time := zeroTime
  updatedAt : Time
  size : Int
deriving DecidableEq, Repr

/-- `kv.data`. -/
abbrev Data := StringMap Entry

/-- A byte that no key may hold. -/
def isControl (byte : UInt8) : Bool := byte < 0x20 || byte == 0x7F

/-- `validateKey`. -/
def validateKey (key : Bytes) : Option GoError :=
  if key = [] then some errInvalidKey
  else
    match key.findIdx? isControl with
    | some position =>
      some (.wrapf "%w: control character at position %d" [.int position] errInvalidKey)
    | none => none

/-- `entrySize`. -/
def entrySize (key value : Bytes) : Int := key.length + value.length + 64

/-- `isExpired`. -/
def Entry.isExpired (item : Entry) (now : Time) : Bool :=
  !isZero item.expireAt && item.expireAt ≤ now

namespace Data

/-- `pruneExpiredLocked`. -/
def pruneExpired (data : Data) (now : Time) : Data :=
  (pairs data).foldl (fun kept pair =>
    if pair.2.isExpired now then kept.erase pair.1 else kept) data

/-- `memoryUsageLocked`. -/
def memoryUsage (data : Data) (now : Time) : Int :=
  ((values data).filter fun item => !item.isExpired now).foldl
    (fun total item => total + item.size) 0

/-- One round of the loop of `oldestKeyLocked`; the empty key stands for none. -/
def older (oldest : Bytes × Time) (pair : Bytes × Entry) : Bytes × Time :=
  if oldest.1 = [] ∨ pair.2.updatedAt < oldest.2 then (pair.1, pair.2.updatedAt) else oldest

/-- `oldestKeyLocked`. -/
def oldestKey (data : Data) (order : MapOrder Entry) : Bytes :=
  ((order.list data).foldl older ([], zeroTime)).1

end Data

/-! ## The store -/

/-- The functions of `encoding/json` on `diskState`. -/
structure StateCodec where
  marshal : Data → Except GoError Bytes
  unmarshal : Bytes → Except GoError Data

/-- `KVStore` with the state file it owns and the number of clock readings so
far. -/
structure Store where
  opts : Config
  data : Data
  file : Option Bytes
  hits : Int := 0
  misses : Int := 0
  closed : Bool := false
  readings : Nat := 0

/-- What a context returns at its successive checks. -/
abbrev Context := Nat → Option GoError

/-- `context.Background()`. -/
def background : Context := fun _ => none

/-- The file operation of `persistState` that fails, with its error. -/
inductive Fault where
  | createTemp (failure : GoError)
  | write (failure : GoError)
  | sync (failure : GoError)
  | close (failure : GoError)
  | rename (failure : GoError)
  | openDir (failure : GoError)
  | syncDir (failure : GoError)
deriving DecidableEq, Repr

/-- `isUnsupportedDirSync`; `os.ErrInvalid` and `EINVAL` have the same text. -/
def isUnsupportedDirSync (failure : GoError) : Bool := failure.is "invalid argument"

namespace Store

section Calls

variable (codec : StateCodec) (clock : Nat → Time)

/-- `time.Now()`: the next reading of the clock. -/
def now (store : Store) : Time := clock store.readings

/-- The store after a reading of the clock. -/
def tick (store : Store) : Store := { store with readings := store.readings + 1 }

/-- The condition of the loop of `evictIfNeededLocked`; the clock is read only
where the number of entries is within its limit. -/
def overCapacity (store : Store) : Store × Bool :=
  if store.opts.maxEntries < store.data.keys.length then (store, true)
  else
    (store.tick,
      decide (store.opts.maxMemoryBytes < store.data.memoryUsage (store.now clock)))

/-- The loop of `evictIfNeededLocked`, with a bound on its rounds. -/
def evictLoop (order : MapOrder Entry) : Nat → Store → Store
  | 0, store => store
  | fuel + 1, store =>
    match store.overCapacity clock with
    | (checked, false) => checked
    | (checked, true) =>
      let key := checked.data.oldestKey order
      if key = [] then checked
      else evictLoop order fuel { checked with data := checked.data.erase key }

/-- `evictIfNeededLocked`. Every round but the last deletes an entry, which
bounds their number. -/
def evictIfNeeded (store : Store) (order : MapOrder Entry) : Store :=
  let pruned :=
    { store.tick with data := store.data.pruneExpired (store.now clock) }
  evictLoop clock order (pruned.data.keys.length + 1) pruned

/-- `persistState` on the map in memory: the state file afterwards. A fault
before the rename leaves the file alone; behind it the file is already
replaced. -/
def persistState (data : Data) (file : Option Bytes) (fault : Option Fault) :
    Option Bytes × Option GoError :=
  match codec.marshal data with
  | .error failure => (file, some (.wrapf "encode state: %w" [] failure))
  | .ok raw =>
    match fault with
    | none => (some raw, none)
    | some (.createTemp failure) => (file, some (.wrapf "create temp state: %w" [] failure))
    | some (.write failure) => (file, some (.wrapf "write temp state: %w" [] failure))
    | some (.sync failure) => (file, some (.wrapf "sync temp state: %w" [] failure))
    | some (.close failure) => (file, some (.wrapf "close temp state: %w" [] failure))
    | some (.rename failure) => (file, some (.wrapf "replace state: %w" [] failure))
    | some (.openDir failure) => (some raw, some (.wrapf "sync state dir: %w" [] failure))
    | some (.syncDir failure) =>
      if isUnsupportedDirSync failure then (some raw, none)
      else (some raw, some (.wrapf "sync state dir: %w" [] failure))

/-- The end of a write: the last check of the context and `persistLocked`. An
error puts the map `before` back. -/
def commit (store : Store) (before : Data) (check : Option GoError) (fault : Option Fault) :
    Store × Option GoError :=
  match check with
  | some failure => ({ store with data := before }, some failure)
  | none =>
    match persistState codec store.data store.file fault with
    | (file, some failure) => ({ store with data := before, file := file }, some failure)
    | (file, none) => ({ store with file := file }, none)

/-- The checks that every call starts with. -/
def precheck (store : Store) (ctx : Context) (key : Bytes) : Option GoError :=
  match ctx 0 with
  | some failure => some failure
  | none =>
    match ctx 1 with
    | some failure => some failure
    | none => if store.closed then some errStoreClosed else validateKey key

/-- The entry of a set at the instant `now`. -/
def newEntry (key value : Bytes) (ttl : Int) (now : Time) : Entry where
  value := value
  expireAt := if 0 < ttl then now + ttl else zeroTime
  updatedAt := now
  size := entrySize key value

/-- The last step of `SetContext`: an entry that expired while it was persisted
lives on in memory for `ttl` from now. -/
def refresh (store : Store) (key : Bytes) (ttl : Int) (expireAt : Time) : Store :=
  if isZero expireAt then store
  else if expireAt < store.now clock then
    match store.data.lookup key with
    | some item =>
      { store.tick with
        data := store.data.insert key { item with expireAt := store.now clock + ttl } }
    | none => store.tick
  else store.tick

/-- `SetContext`. -/
def setContext (store : Store) (ctx : Context) (key value : Bytes) (ttl : Int)
    (order : MapOrder Entry) (fault : Option Fault) : Store × Option GoError :=
  match store.precheck ctx key with
  | some failure => (store, some failure)
  | none =>
    let entry := newEntry key value ttl (store.now clock)
    if store.opts.maxMemoryBytes < entry.size then
      (store.tick, some (.wrapf "%w: size %d limit %d"
        [.int entry.size, .int store.opts.maxMemoryBytes] errValueTooLarge))
    else
      let written := evictIfNeeded clock
        { store.tick with data := store.data.insert key entry } order
      match written.commit codec store.data (ctx 2) fault with
      | (failed, some failure) => (failed, some failure)
      | (persisted, none) => (persisted.refresh clock key ttl entry.expireAt, none)

/-- `GetContext`. -/
def getContext (store : Store) (ctx : Context) (key : Bytes) :
    Store × Except GoError Bytes :=
  match store.precheck ctx key with
  | some failure => (store, .error failure)
  | none =>
    match store.data.lookup key with
    | none => ({ store with misses := store.misses + 1 }, .error errKeyNotFound)
    | some item =>
      if item.isExpired (store.now clock) then
        ({ store.tick with misses := store.misses + 1 }, .error errKeyExpired)
      else ({ store.tick with hits := store.hits + 1 }, .ok item.value)

/-- `DeleteContext`. -/
def deleteContext (store : Store) (ctx : Context) (key : Bytes) (fault : Option Fault) :
    Store × Option GoError :=
  match store.precheck ctx key with
  | some failure => (store, some failure)
  | none =>
    match store.data.lookup key with
    | none => (store, some errKeyNotFound)
    | some _ =>
      commit codec { store with data := store.data.erase key } store.data (ctx 2) fault

/-- `Close`. -/
def close (store : Store) : Store := { store with closed := true }

end Calls

end Store

/-! ## Opening -/

section Open

variable (codec : StateCodec) (clock : Nat → Time)

/-- The loop of `load` over the entries of the decoded state. -/
def loadEntries : List (Bytes × Entry) → Data → Except GoError Data
  | [], data => .ok data
  | (key, item) :: rest, data =>
    match validateKey key with
    | some failure =>
      .error (.wrapBoth "%w: decode state key %q: %w" [.bytes key] errCorruptState failure)
    | none =>
      loadEntries rest (data.insert key { item with size := entrySize key item.value })

/-- `load` of a state file into an empty map. -/
def load (file : Option Bytes) (order : MapOrder Entry) : Except GoError Data :=
  match file with
  | none => .ok ∅
  | some raw =>
    match codec.unmarshal raw with
    | .error failure =>
      .error (.wrapBoth "%w: decode state: %w" [] errCorruptState failure)
    | .ok state => loadEntries (order.list state) ∅

/-- `NewKVStore` on a directory with the given state file, after that many
readings of the clock. -/
def newKVStore (opts : Config) (file : Option Bytes) (order : MapOrder Entry)
    (readings : Nat) : Except GoError Store :=
  match validateConfig (setConfigDefaults opts) with
  | some failure => .error failure
  | none =>
    match load codec file order with
    | .error failure => .error failure
    | .ok data =>
      let loaded : Store :=
        { opts := setConfigDefaults opts
          data := data.pruneExpired (clock readings)
          file := file
          readings := readings + 1 }
      .ok (loaded.evictIfNeeded clock order)

end Open

/-! ## Runs of calls -/

/-- The calls on a store, with what their context returns, the orders of map
iteration and the faults they meet. `reopen` closes the store and opens its
directory again. -/
inductive Call where
  | set (ctx : Context) (key value : Bytes) (ttl : Int) (order : MapOrder Entry)
      (fault : Option Fault)
  | get (ctx : Context) (key : Bytes)
  | delete (ctx : Context) (key : Bytes) (fault : Option Fault)
  | close
  | reopen (opts : Config) (order : MapOrder Entry)

/-- One call: the store afterwards and the error it returns. A directory that
does not open leaves the closed store. -/
def Store.apply (codec : StateCodec) (clock : Nat → Time) (store : Store) :
    Call → Store × Option GoError
  | .set ctx key value ttl order fault =>
    store.setContext codec clock ctx key value ttl order fault
  | .get ctx key =>
    match store.getContext clock ctx key with
    | (next, .error failure) => (next, some failure)
    | (next, .ok _) => (next, none)
  | .delete ctx key fault => store.deleteContext codec ctx key fault
  | .close => (store.close, none)
  | .reopen opts order =>
    match newKVStore codec clock opts store.file order store.readings with
    | .ok opened => (opened, none)
    | .error failure => (store.close, some failure)

/-- A directory that no store has opened yet, as a closed store. -/
def Store.unopened (file : Option Bytes) : Store where
  opts := setConfigDefaults { dataDir := [] }
  data := ∅
  file := file
  closed := true

/-- The state after a run of calls. -/
def Store.after (codec : StateCodec) (clock : Nat → Time) (file : Option Bytes)
    (calls : List Call) : Store :=
  calls.foldl (fun store call => (store.apply codec clock call).1) (Store.unopened file)

end Plumego.KvStore
