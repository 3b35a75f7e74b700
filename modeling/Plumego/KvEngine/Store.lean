/-
Module: Plumego.KvEngine.Store
Purpose: The key-value engine's store: options, the data directory, `Set`,
  `Get`, `Delete`, expiry cleaning, `Snapshot`, and opening a directory by
  loading the snapshot and replaying the write-ahead log.
Trusted boundary: `encoding/json` and `compress/gzip` are parameters; what was
  written to the log counts as its content whether flushed or not; a failing
  write or file operation is an input of the call. Metrics, workers' timing and
  locks are not modelled; every call runs alone.
Main exports: Externals, Disk, Store, loadSnapshot, replayWAL, newKVStore, StoreOp, storeMachine
-/
import Plumego.KvEngine.Lru
import Plumego.Lib.Machine
import Plumego.Lib.Stream

namespace Plumego.KvEngine

open Go Lib

/-! ## Errors and options -/

/-- `ErrKeyNotFound`. -/
def errKeyNotFound : GoError := .new "key not found"

/-- `ErrKeyExpired`. -/
def errKeyExpired : GoError := .new "key expired"

/-- `ErrStoreClosed`. -/
def errStoreClosed : GoError := .new "store is closed"

/-- `ErrInvalidEntry`. -/
def errInvalidEntry : GoError := .new "invalid WAL entry"

/-- `FormatAutoDetectMode`. -/
inductive AutoDetectMode where
  | enabled
  | disabled
deriving DecidableEq, Repr

/-- `Options`: the fields the modelled calls read. -/
structure Options where
  maxEntries : Int := 0
  maxMemoryMB : Int := 0
  shardCount : Int := 0
  enableCompression : Bool := false
  readOnly : Bool := false
  serializerFormat : SerializationFormat := .binary
  autoDetectMode : AutoDetectMode := .enabled
deriving DecidableEq, Repr

/-- `defaultMaxEntries`. -/
def defaultMaxEntries : Int := 100000

/-- `defaultMaxMemoryMB`. -/
def defaultMaxMemoryMB : Int := 200

/-- `defaultShardCount`. -/
def defaultShardCount : Int := 16

/-- `setDefaults`: a zero field takes its default. -/
def setDefaults (opts : Options) : Options :=
  { opts with
    maxEntries := if opts.maxEntries = 0 then defaultMaxEntries else opts.maxEntries
    maxMemoryMB := if opts.maxMemoryMB = 0 then defaultMaxMemoryMB else opts.maxMemoryMB
    shardCount := if opts.shardCount = 0 then defaultShardCount else opts.shardCount }

/-- `validateOptions`. -/
def validateOptions (opts : Options) : Option GoError :=
  if opts.maxEntries ≤ 0 then some (.new "max entries must be positive")
  else if opts.maxMemoryMB ≤ 0 then some (.new "max memory must be positive")
  else if opts.shardCount ≤ 0 ∨
      opts.shardCount.toNat &&& (opts.shardCount.toNat - 1) ≠ 0 then
    some (.new "shard count must be power of 2")
  else none

/-- `int64(MaxMemoryMB) * 1024 * 1024`. -/
def Options.maxMemory (opts : Options) : Int := wrapInt64 (opts.maxMemoryMB * 1024 * 1024)

/-- The library functions the engine stores its data with. `gunzip` gives
nothing for a stream that is not a whole gzip stream. -/
structure Externals where
  json : JsonCodec
  gzip : Bytes → Bytes
  gunzip : Bytes → Option Bytes

/-- Libraries for runs in the binary format without compression, which call
none of them. -/
def uncalled : Externals where
  json :=
    { marshalWAL := fun _ => none
      unmarshalWAL := fun _ => none
      marshalEntry := fun _ => none
      unmarshalEntry := fun _ => none
      header := fun _ => []
      unmarshalHeader := fun _ => false }
  gzip := fun content => content
  gunzip := some

/-- The data directory: `snapshot.bin`, `snapshot.json` and `store.wal`. -/
structure Disk where
  snapshotBin : Option Bytes := none
  snapshotJson : Option Bytes := none
  wal : Bytes := []
deriving DecidableEq, Repr

/-- `KVStore`. -/
structure Store where
  opts : Options
  memory : Memory
  disk : Disk
  hits : Int := 0
  misses : Int := 0
  walSize : Int := 0
  version : Int := 0
  closed : Bool := false

/-! ## Eviction -/

namespace Memory

/-- A shard `evictOneLRUSkip` may evict from. -/
def evictable (skipKey : Bytes) (shard : Shard) : Bool :=
  match shard.lruTail with
  | some entry => entry.entry.key != skipKey
  | none => false

/-- `evictOneLRUSkip`: evict from the first shard whose tail has another key,
nothing if there is none. -/
def evictOneLRUSkip (memory : Memory) (skipKey : Bytes) : Option Memory :=
  (memory.shards.findIdx? (evictable skipKey)).map memory.evict

/-- An eviction loop: evict until there is room. The flag says whether there
is. -/
def evictUntil (room : Memory → Bool) (key : Bytes) : Nat → Memory → Memory × Bool
  | 0, memory => (memory, room memory)
  | fuel + 1, memory =>
    if room memory then (memory, true)
    else
      match memory.evictOneLRUSkip key with
      | none => (memory, false)
      | some next => evictUntil room key fuel next

/-- The condition that ends the first loop of `ensureCapacityForSet`. -/
def roomForEntry (opts : Options) (replacing : Bool) (memory : Memory) : Bool :=
  if replacing then memory.entries ≤ opts.maxEntries else memory.entries < opts.maxEntries

/-- `memoryAfterSet`: the old size is zero where nothing is replaced. -/
def memoryAfterSet (size oldSize : Int) (memory : Memory) : Int :=
  memory.memoryUsage + size - oldSize

/-- The condition that ends the second loop of `ensureCapacityForSet`. -/
def roomForSize (opts : Options) (size oldSize : Int) (memory : Memory) : Bool :=
  memory.memoryAfterSet size oldSize ≤ opts.maxMemory

/-- The first loop of `ensureCapacityForSet`. Every eviction takes one off
`entries`, which bounds its rounds. -/
def evictEntries (memory : Memory) (opts : Options) (replacing : Bool) (key : Bytes) :
    Memory × Bool :=
  evictUntil (roomForEntry opts replacing) key
    (memory.entries - opts.maxEntries + 1).toNat memory

/-- The second loop of `ensureCapacityForSet`. Every eviction takes the size of
an entry off `memoryUsage`, which bounds its rounds. -/
def evictSize (memory : Memory) (opts : Options) (size oldSize : Int) (key : Bytes) :
    Memory × Bool :=
  evictUntil (roomForSize opts size oldSize) key
    (memory.memoryAfterSet size oldSize - opts.maxMemory).toNat memory

/-- The size of the entry a set replaces. -/
def oldSize (memory : Memory) (key : Bytes) : Int :=
  ((memory.find key).map (·.entry.size)).getD 0

/-- `ensureCapacityForSet`. -/
def ensureCapacityForSet (memory : Memory) (opts : Options) (key : Bytes) (size : Int) :
    Memory × Option GoError :=
  match memory.evictEntries opts (memory.find key).isSome key with
  | (smaller, false) =>
    (smaller, some (.errorf "capacity full: entries %d exceeds max entries %d"
      [.int smaller.entries, .int opts.maxEntries]))
  | (smaller, true) =>
    match smaller.evictSize opts size (memory.oldSize key) key with
    | (smallest, false) =>
      (smallest, some (.errorf "capacity full: memory %d exceeds max memory %d"
        [.int (smallest.memoryAfterSet size (memory.oldSize key)), .int opts.maxMemory]))
    | (smallest, true) => (smallest, none)

end Memory

/-! ## Calls -/

/-- `!e.ExpireAt.IsZero() && now.After(e.ExpireAt)`. -/
def Entry.expired (entry : Entry) (now : Time) : Bool :=
  !isZero entry.expireAt && entry.expireAt < now

/-- `e.ExpireAt.IsZero() || now.Before(e.ExpireAt)`. -/
def Entry.live (entry : Entry) (now : Time) : Bool :=
  isZero entry.expireAt || now < entry.expireAt

/-- `int64(len(key) + len(value) + 64)`. -/
def entrySize (key value : Bytes) : Int := key.length + value.length + 64

namespace Store

variable (env : Externals)

/-- `writeWALEntry`. With `fault` the write or its flush fails after that many
bytes have reached the log. -/
def writeWALEntry (store : Store) (entry : WALEntry) (fault : Option Nat) :
    Store × Option GoError :=
  match encodeWALEntry env.json store.opts.serializerFormat entry with
  | .error failure => (store, some failure)
  | .ok data =>
    match fault with
    | some written =>
      ({ store with disk := { store.disk with wal := store.disk.wal ++ data.take written } },
        some (.new "write"))
    | none =>
      ({ store with
          disk := { store.disk with wal := store.disk.wal ++ data }
          walSize := store.walSize + data.length }, none)

/-- The log record of a call, with its checksum. -/
def checked (entry : WALEntry) : WALEntry := { entry with crc := calculateCRC entry }

/-- The expiry of a set: none without a positive time to live. -/
def setExpiry (ttl : Int) (now : Time) : Time := if 0 < ttl then now + ttl else zeroTime

/-- `Set`, at the instant `now`. -/
def set (store : Store) (key value : Bytes) (ttl : Int) (now : Time) (fault : Option Nat) :
    Store × Option GoError :=
  if store.closed || store.opts.readOnly then (store, some errStoreClosed)
  else
    let expireAt := setExpiry ttl now
    let size := entrySize key value
    if store.opts.maxMemory < size then
      (store, some (.errorf "value too large: size %d exceeds max memory %d"
        [.int size, .int store.opts.maxMemory]))
    else
      match store.memory.ensureCapacityForSet store.opts key size with
      | (memory, some failure) => ({ store with memory := memory }, some failure)
      | (memory, none) =>
        let version := wrapInt64 (store.version + 1)
        let record : WALEntry := checked
          { op := opSet, key := key, value := value, expireAt := expireAt,
            version := version }
        match writeWALEntry env { store with memory := memory, version := version }
            record fault with
        | (failed, some failure) => (failed, some (.wrapf "WAL write failed: %w" [] failure))
        | (logged, none) =>
          let entry : Entry :=
            { key := key, value := value, expireAt := expireAt, size := size,
              version := version }
          ({ logged with memory := logged.memory.put entry }, none)

/-- `Get`. The clock is read at `now` and, under the write lock, `wait` later;
`locked` says whether `TryLock` succeeds. An entry that was expired at the first
reading still is at the second, so the retry of the source is not reached. -/
def get (store : Store) (key : Bytes) (now : Time) (wait : Nat) (locked : Bool) :
    Store × Except GoError Bytes :=
  if store.closed then (store, .error errStoreClosed)
  else
    match store.memory.find key with
    | none => ({ store with misses := store.misses + 1 }, .error errKeyNotFound)
    | some found =>
      if found.entry.expired now then
        ({ store with memory := store.memory.remove key, misses := store.misses + 1 },
          .error errKeyExpired)
      else if locked then
        if found.entry.expired (now + wait) then
          ({ store with misses := store.misses + 1 }, .error errKeyExpired)
        else
          ({ store with memory := store.memory.promote key, hits := store.hits + 1 },
            .ok found.entry.value)
      else ({ store with hits := store.hits + 1 }, .ok found.entry.value)

/-- `Delete`. The deletion is logged before the key is looked up. -/
def delete (store : Store) (key : Bytes) (fault : Option Nat) : Store × Option GoError :=
  if store.closed || store.opts.readOnly then (store, some errStoreClosed)
  else
    let version := wrapInt64 (store.version + 1)
    let record : WALEntry := checked { op := opDelete, key := key, version := version }
    match writeWALEntry env { store with version := version } record fault with
    | (failed, some failure) => (failed, some (.wrapf "WAL write failed: %w" [] failure))
    | (logged, none) =>
      match logged.memory.find key with
      | none => (logged, some errKeyNotFound)
      | some _ => ({ logged with memory := logged.memory.remove key }, none)

/-! ## Expiry cleaning -/

/-- `sampleSize` of `cleanExpired`. -/
def sampleSize : Nat := 20

/-- One sampling pass: the expired keys among the first `sampleSize` entries
with an expiry, and the number of entries checked. -/
def sampleExpired (now : Time) : List (Bytes × EntryPtr) → Nat → List Bytes × Nat
  | [], checkedCount => ([], checkedCount)
  | (key, entry) :: rest, checkedCount =>
    if isZero entry.entry.expireAt then sampleExpired now rest checkedCount
    else
      let found := if entry.entry.expired now then [key] else []
      if sampleSize ≤ checkedCount + 1 then (found, checkedCount + 1)
      else
        let (more, total) := sampleExpired now rest (checkedCount + 1)
        (found ++ more, total)

/-- Delete one sampled key, checking its expiry again under the write lock. -/
def removeExpired (now : Time) (index : Nat) (memory : Memory) (key : Bytes) : Memory :=
  match (memory.shards[index]?).bind (·.data.lookup key) with
  | some entry => if entry.entry.expired now then memory.removeAt index key else memory
  | none => memory

/-- The loop of `cleanExpired` over one shard: another pass while a quarter of
a full sample was expired. Such a pass deletes, so the number of entries bounds
the rounds. -/
def cleanShard (now : Time) (order : MapOrder EntryPtr) (index : Nat) :
    Nat → Memory → Memory
  | 0, memory => memory
  | fuel + 1, memory =>
    let data := ((memory.shards[index]?).getD {}).data
    let (expired, checkedCount) := sampleExpired now (order.list data) 0
    let cleaned := expired.foldl (removeExpired now index) memory
    if checkedCount < sampleSize then cleaned
    else if 4 * expired.length < checkedCount then cleaned
    else cleanShard now order index fuel cleaned

/-- `cleanExpired`. -/
def cleanExpired (store : Store) (now : Time) (order : MapOrder EntryPtr) : Store :=
  { store with
    memory := (List.range store.memory.shards.length).foldl (fun memory index =>
      cleanShard now order index
        (((memory.shards[index]?).getD {}).held.length + 1) memory) store.memory }

/-! ## Snapshots -/

/-- The encodings of the entries one after the other. -/
def encodeEntries (format : SerializationFormat) : List Entry → Except GoError Bytes
  | [] => .ok []
  | entry :: rest =>
    match encodeEntry env.json format entry with
    | .error failure => .error failure
    | .ok data =>
      match encodeEntries format rest with
      | .error failure => .error failure
      | .ok more => .ok (data ++ more)

/-- The entries `Snapshot` writes: the live ones, shard by shard. -/
def liveEntries (store : Store) (now : Time) (order : MapOrder EntryPtr) : List Entry :=
  (store.memory.shards.flatMap fun shard =>
    (order.list shard.data).map fun pair => pair.2.entry).filter (·.live now)

/-- The content of the snapshot file. -/
def snapshotFile (store : Store) (created now : Time) (order : MapOrder EntryPtr) :
    Except GoError Bytes :=
  match encodeEntries env store.opts.serializerFormat (store.liveEntries now order) with
  | .error failure => .error failure
  | .ok body =>
    let content := snapshotHeader env.json store.opts.serializerFormat created ++ body
    .ok (if store.opts.enableCompression then env.gzip content else content)

/-- Rename the finished file over the snapshot of its format. -/
def renameSnapshot (disk : Disk) (format : SerializationFormat) (content : Bytes) : Disk :=
  match format with
  | .binary => { disk with snapshotBin := some content }
  | .json => { disk with snapshotJson := some content }

/-- Where a file operation of `Snapshot` fails: before the rename has replaced
the file, after it, or once the log is truncated. -/
inductive SnapshotFault where
  | beforeRename
  | afterRename
  | afterTruncate
deriving DecidableEq, Repr

/-- `Snapshot`; the header is stamped `created` and the entries are checked at
`now`. -/
def snapshot (store : Store) (created now : Time) (order : MapOrder EntryPtr)
    (fault : Option SnapshotFault) : Store × Option GoError :=
  if store.closed || store.opts.readOnly then (store, some errStoreClosed)
  else
    match snapshotFile env store created now order with
    | .error failure => (store, some failure)
    | .ok content =>
      let renamed := renameSnapshot store.disk store.opts.serializerFormat content
      match fault with
      | some .beforeRename => (store, some (.new "snapshot file"))
      | some .afterRename => ({ store with disk := renamed }, some (.new "sync directory"))
      | some .afterTruncate =>
        ({ store with disk := { renamed with wal := [] } }, some (.new "reset WAL"))
      | none =>
        ({ store with disk := { renamed with wal := [] }, walSize := 0 }, none)

/-- `Close`. -/
def close (store : Store) : Store := { store with closed := true }

end Store

/-! ## Opening a directory -/

section Open

variable (env : Externals)

/-- Read the entries of a snapshot behind its header. -/
def decodeEntries (format : SerializationFormat) (input : Bytes) :
    Except ReadError (List Entry) :=
  decodeAll (decodeEntry env.json format) ReadError.ends (input.length + 1) input

/-- The serializer a load uses: the detected format, or the configured one. -/
def chooseFormat (opts : Options) (detected : Except GoError SerializationFormat) :
    Except GoError SerializationFormat :=
  match opts.autoDetectMode with
  | .enabled => detected
  | .disabled => .ok opts.serializerFormat

/-- The bytes behind an optional compression. -/
def uncompressed (opts : Options) (file : Bytes) : Except GoError Bytes :=
  if opts.enableCompression then
    match env.gunzip file with
    | some content => .ok content
    | none => .error (.wrapf "open compressed snapshot: %w" [] (.new "gzip"))
  else .ok file

/-- The entries of the snapshot file `loadSnapshot` opens: `snapshot.bin`, or
else `snapshot.json`. -/
def snapshotEntries (opts : Options) (disk : Disk) : Except GoError (List Entry) :=
  match disk.snapshotBin <|> disk.snapshotJson with
  | none => .ok []
  | some file =>
    match uncompressed env opts file with
    | .error failure => .error failure
    | .ok content =>
      match chooseFormat opts (detectSnapshotFormat content) with
      | .error failure => .error failure
      | .ok format =>
        match readSnapshotHeader env.json format content with
        | .error failure => .error failure.toError
        | .ok body =>
          match decodeEntries env format body with
          | .error failure => .error failure.toError
          | .ok entries => .ok entries

/-- `loadSnapshot`. A load that fails gives up the whole store, so the entries
it has stored by then are not kept. -/
def loadSnapshot (opts : Options) (disk : Disk) (memory : Memory) :
    Except GoError Memory :=
  match snapshotEntries env opts disk with
  | .error failure => .error failure
  | .ok entries => .ok (entries.foldl Memory.load memory)

/-- Read and check one log record. -/
def decodeChecked (format : SerializationFormat) (input : Bytes) :
    Except ReadError (WALEntry × Bytes) :=
  match decodeWALEntry env.json format input with
  | .error .eof => .error .eof
  | .error failure =>
    .error (.invalid (.wrapBoth "%w: decode WAL: %w" [] errInvalidEntry failure.toError))
  | .ok (entry, rest) =>
    if validateWALEntry entry then .ok (entry, rest)
    else
      .error (.invalid (.wrapf "%w: CRC mismatch for key %q" [.bytes entry.key]
        errInvalidEntry))

/-- The entry a logged set restores. -/
def WALEntry.toEntry (record : WALEntry) : Entry :=
  { key := record.key, value := record.value, expireAt := record.expireAt,
    size := entrySize record.key record.value, version := record.version }

/-- Replay one log record. -/
def Memory.replay (memory : Memory) (record : WALEntry) : Memory :=
  if record.op = opSet then memory.put record.toEntry
  else if record.op = opDelete then memory.remove record.key
  else memory

/-- The records of the log. -/
def walEntries (opts : Options) (disk : Disk) : Except GoError (List WALEntry) :=
  if disk.wal = [] then .ok []
  else
    match chooseFormat opts (detectWALFormat disk.wal) with
    | .error failure => .error failure
    | .ok format =>
      match decodeAll (decodeChecked env format) ReadError.ends (disk.wal.length + 1)
          disk.wal with
      | .error failure => .error failure.toError
      | .ok records => .ok records

/-- `replayWAL`. -/
def replayWAL (opts : Options) (disk : Disk) (memory : Memory) : Except GoError Memory :=
  match walEntries env opts disk with
  | .error failure => .error failure
  | .ok records => .ok (records.foldl Memory.replay memory)

/-- `loadData`. -/
def loadData (opts : Options) (disk : Disk) (memory : Memory) : Except GoError Memory :=
  match loadSnapshot env opts disk memory with
  | .error failure => .error failure
  | .ok loaded => replayWAL env opts disk loaded

/-- `NewKVStore` on a directory. -/
def newKVStore (opts : Options) (disk : Disk) : Except GoError Store :=
  match validateOptions (setDefaults opts) with
  | some failure => .error failure
  | none =>
    match loadData env (setDefaults opts) disk
        (newMemory (setDefaults opts).shardCount.toNat) with
    | .error failure => .error (.wrapf "failed to load data: %w" [] failure)
    | .ok memory => .ok { opts := setDefaults opts, memory := memory, disk := disk }

end Open

/-! ## Runs of calls -/

/-- The calls on a store, with the readings of the clock, the orders of map
iteration and the faults they meet. `reopen` closes the store and opens its
directory again, with options of its own. -/
inductive StoreOp where
  | set (key value : Bytes) (ttl : Int) (now : Time) (fault : Option Nat)
  | get (key : Bytes) (now : Time) (wait : Nat) (locked : Bool)
  | delete (key : Bytes) (fault : Option Nat)
  | cleanExpired (now : Time) (order : MapOrder EntryPtr)
  | snapshot (created now : Time) (order : MapOrder EntryPtr)
      (fault : Option Store.SnapshotFault)
  | close
  | reopen (opts : Options)

/-- The error of a result. -/
def errorOf {α : Type} : Except GoError α → Option GoError
  | .error failure => some failure
  | .ok _ => none

/-- One call: the store afterwards and the error it returns. A directory that
does not open leaves the closed store. -/
def Store.apply (env : Externals) (store : Store) : StoreOp → Store × Option GoError
  | .set key value ttl now fault => store.set env key value ttl now fault
  | .get key now wait locked =>
    let result := store.get key now wait locked
    (result.1, errorOf result.2)
  | .delete key fault => store.delete env key fault
  | .cleanExpired now order => (store.cleanExpired now order, none)
  | .snapshot created now order fault => store.snapshot env created now order fault
  | .close => (store.close, none)
  | .reopen opts =>
    match newKVStore env opts store.disk with
    | .ok opened => (opened, none)
    | .error failure => (store.close, some failure)

/-- The store as a machine of calls. -/
def storeMachine (env : Externals) : Machine Store StoreOp (Option GoError) where
  step := fun store op => some (store.apply env op)

/-- A directory that no store has opened yet, as a closed store. -/
def Store.unopened (disk : Disk) : Store where
  opts := setDefaults {}
  memory := newMemory 1
  disk := disk
  closed := true

/-- The state after a run of calls. -/
def Store.after (env : Externals) (disk : Disk) (ops : List StoreOp) : Store :=
  ops.foldl (fun store op => (store.apply env op).1) (Store.unopened disk)

end Plumego.KvEngine
