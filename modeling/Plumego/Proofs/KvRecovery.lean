/-
Module: Plumego.Proofs.KvRecovery
Purpose: What the key-value engine finds again in its directory: the memory as
  a replayed log over a snapshot, the steps that keep the directory in
  agreement with it, and the durability of the binary format.
Trusted boundary: `JsonCodec.Lawful` for files in the JSON format, and that
  `gunzip` undoes `gzip`.
Main exports: Memory.contents, Memory.Placed, Backed, Durable, durable_recovers
-/
import Plumego.Lib.KeyedStore
import Plumego.Proofs.KvCodec
import Plumego.Proofs.KvContents

namespace Plumego.KvEngine

open Go Lib

/-! ## The memory as a map -/

/-- The entry in memory under each key. -/
def Memory.contents (memory : Memory) : Bytes → Option Entry :=
  fun key => (memory.find key).map (·.entry)

/-- The effect of a log record on the map. -/
def WALEntry.update (record : WALEntry) : Bytes × Option Entry :=
  (record.key, if record.op = opSet then some record.toEntry else none)

/-- The records the engine writes. -/
def WALEntry.Known (record : WALEntry) : Prop := record.op = opSet ∨ record.op = opDelete

/-- The map of a list of loaded entries. -/
def entriesMap (entries : List Entry) : Bytes → Option Entry :=
  replayUpdates (entries.map fun entry => (entry.key, some entry)) fun _ => none

namespace Memory

variable {memory : Memory}

theorem contents_load (positive : 0 < memory.shards.length) (entry : Entry) :
    (memory.load entry).contents =
      Function.update memory.contents entry.key (some entry) := by
  funext key
  rw [contents, find_load positive, Function.update_apply]
  split <;> rfl

theorem contents_put (positive : 0 < memory.shards.length) (entry : Entry) :
    (memory.put entry).contents =
      Function.update memory.contents entry.key (some entry) := by
  funext key
  rw [contents, find_put positive, Function.update_apply]
  split <;> rfl

theorem contents_remove (memory : Memory) (key : Bytes) :
    (memory.remove key).contents = Function.update memory.contents key none := by
  funext other
  rw [contents, find_remove, Function.update_apply]
  split <;> rfl

theorem contents_replay (positive : 0 < memory.shards.length) {record : WALEntry}
    (known : record.Known) :
    (memory.replay record).contents =
      Function.update memory.contents record.update.1 record.update.2 := by
  unfold replay WALEntry.update
  dsimp only
  split
  · exact contents_put positive record.toEntry
  · rename_i notSet
    rw [if_pos (known.resolve_left notSet)]
    exact contents_remove memory record.key

theorem contents_loads (positive : 0 < memory.shards.length) (entries : List Entry) :
    (entries.foldl load memory).contents =
      replayUpdates (entries.map fun entry => (entry.key, some entry)) memory.contents := by
  induction entries generalizing memory with
  | nil => rfl
  | cons entry rest ih =>
    rw [List.foldl_cons, ih (by rw [length_load]; exact positive),
      contents_load positive]
    rfl

theorem contents_replays (positive : 0 < memory.shards.length) {records : List WALEntry}
    (known : ∀ record ∈ records, record.Known) :
    (records.foldl replay memory).contents =
      replayUpdates (records.map WALEntry.update) memory.contents := by
  induction records generalizing memory with
  | nil => rfl
  | cons record rest ih =>
    rw [List.foldl_cons, ih (by rw [length_replay]; exact positive)
      (List.forall_mem_of_forall_mem_cons known),
      contents_replay positive (known record List.mem_cons_self)]
    rfl

theorem contents_newMemory (shardCount : Nat) :
    (newMemory shardCount).contents = fun _ => none := by
  funext key
  rw [contents, find_newMemory]
  rfl

/-! ## Keys at their place -/

/-- Every key lies in its own shard, with an entry of that key. -/
structure Placed (memory : Memory) : Prop where
  positive : 0 < memory.shards.length
  keyed : ∀ index shard key entry, memory.shards[index]? = some shard →
    shard.data.lookup key = some entry →
      entry.entry.key = key ∧ memory.shardIndex key = index

theorem placed_newMemory {shardCount : Nat} (positive : 0 < shardCount) :
    (newMemory shardCount).Placed := by
  refine ⟨by rw [newMemory, List.length_replicate]; exact positive, ?_⟩
  intro index shard key entry shardEq found
  have isEmpty := List.eq_of_mem_replicate (List.mem_of_getElem? shardEq)
  rw [isEmpty] at found
  cases found

/-- A change to one shard that stores nothing but entries at their place. -/
theorem Placed.modify {later : Memory} {index : Nat} {change : Shard → Shard}
    (placed : memory.Placed)
    (shardsEq : later.shards = memory.shards.modify index change)
    (stores : ∀ shard key entry, (change shard).data.lookup key = some entry →
      shard.data.lookup key = some entry ∨
        (entry.entry.key = key ∧ memory.shardIndex key = index)) : later.Placed := by
  have sameIndex : ∀ key, later.shardIndex key = memory.shardIndex key := by
    intro key
    rw [shardIndex, shardsEq, List.length_modify, shardIndex]
  refine ⟨by rw [shardsEq, List.length_modify]; exact placed.positive, ?_⟩
  intro position shard key entry shardEq found
  rw [sameIndex]
  rw [shardsEq, List.getElem?_modify] at shardEq
  cases before : memory.shards[position]? with
  | none => simp [before] at shardEq
  | some old =>
    simp only [before, Option.map_eq_map, Option.map_some, Option.some.injEq] at shardEq
    split at shardEq
    · rename_i same
      subst same
      rw [← shardEq] at found
      rcases stores old key entry found with kept | new
      · exact placed.keyed _ old key entry before kept
      · exact new
    · rw [← shardEq] at found
      exact placed.keyed _ old key entry before found

theorem Placed.load (placed : memory.Placed) (entry : Entry) : (memory.load entry).Placed := by
  refine placed.modify rfl ?_
  intro shard key found lookupEq
  rw [Shard.insert_data] at lookupEq
  by_cases same : key = entry.key
  · subst same
    rw [AList.lookup_insert, Option.some.injEq] at lookupEq
    exact Or.inr ⟨by rw [← lookupEq], rfl⟩
  · rw [AList.lookup_insert_ne same] at lookupEq
    exact Or.inl lookupEq

theorem Placed.remove (placed : memory.Placed) (key : Bytes) : (memory.remove key).Placed := by
  refine placed.modify (removeAt_shards memory _ key) ?_
  intro shard other found lookupEq
  rw [Shard.remove_data] at lookupEq
  by_cases same : other = key
  · rw [same, AList.lookup_erase] at lookupEq
    cases lookupEq
  · rw [AList.lookup_erase_ne same] at lookupEq
    exact Or.inl lookupEq

theorem Placed.put (placed : memory.Placed) (entry : Entry) : (memory.put entry).Placed :=
  (placed.remove entry.key).load entry

theorem Placed.replay (placed : memory.Placed) (record : WALEntry) :
    (memory.replay record).Placed := by
  unfold Memory.replay
  split
  · exact placed.put record.toEntry
  · split
    · exact placed.remove record.key
    · exact placed

theorem Placed.loads (placed : memory.Placed) (entries : List Entry) :
    (entries.foldl Memory.load memory).Placed := by
  induction entries generalizing memory with
  | nil => exact placed
  | cons entry rest ih => exact ih (placed.load entry)

theorem Placed.replays (placed : memory.Placed) (records : List WALEntry) :
    (records.foldl Memory.replay memory).Placed := by
  induction records generalizing memory with
  | nil => exact placed
  | cons record rest ih => exact ih (placed.replay record)

theorem Placed.key_of_contents (placed : memory.Placed) {key : Bytes} {entry : Entry}
    (found : memory.contents key = some entry) : entry.key = key := by
  rw [contents, Option.map_eq_some_iff] at found
  obtain ⟨pointer, foundEq, rfl⟩ := found
  rw [find_eq, Option.bind_eq_some_iff] at foundEq
  obtain ⟨shard, shardEq, lookupEq⟩ := foundEq
  exact (placed.keyed _ shard key pointer shardEq lookupEq).1

/-- The entries of the shards are the entries of the map. -/
theorem Placed.mem_shards (placed : memory.Placed) {entry : Entry} :
    (∃ shard ∈ memory.shards, ∃ pointer, ∃ key, shard.data.lookup key = some pointer ∧
      pointer.entry = entry) ↔ memory.contents entry.key = some entry := by
  constructor
  · rintro ⟨shard, member, pointer, key, lookupEq, rfl⟩
    obtain ⟨index, shardEq⟩ := List.getElem?_of_mem member
    obtain ⟨keyEq, indexEq⟩ := placed.keyed index shard key pointer shardEq lookupEq
    rw [contents, find_eq, keyEq, indexEq, shardEq, Option.bind_some, lookupEq]
    rfl
  · intro found
    rw [contents, Option.map_eq_some_iff] at found
    obtain ⟨pointer, foundEq, pointerEq⟩ := found
    rw [find_eq, Option.bind_eq_some_iff] at foundEq
    obtain ⟨shard, shardEq, lookupEq⟩ := foundEq
    exact ⟨shard, List.mem_of_getElem? shardEq, pointer, entry.key, lookupEq, pointerEq⟩

/-- What is held in memory is what the map has. -/
theorem Placed.mem_held (placed : memory.Placed) {entry : Entry} :
    (∃ pointer ∈ memory.held, pointer.entry = entry) ↔
      memory.contents entry.key = some entry := by
  rw [← placed.mem_shards, held]
  constructor
  · rintro ⟨pointer, member, entryEq⟩
    obtain ⟨shard, inShards, inShard⟩ := List.mem_flatMap.mp member
    obtain ⟨key, found⟩ := mem_values.mp inShard
    exact ⟨shard, inShards, pointer, key, found, entryEq⟩
  · rintro ⟨shard, inShards, pointer, key, found, entryEq⟩
    exact ⟨pointer, List.mem_flatMap.mpr ⟨shard, inShards, mem_values.mpr ⟨key, found⟩⟩,
      entryEq⟩

end Memory

/-! ## Snapshots list the live part of the map -/

namespace Store

variable {store : Store}

theorem mem_liveEntries (placed : store.memory.Placed) {now : Time}
    {order : MapOrder EntryPtr} {entry : Entry} :
    entry ∈ store.liveEntries now order ↔
      store.memory.contents entry.key = some entry ∧ entry.live now = true := by
  rw [liveEntries, List.mem_filter, ← placed.mem_shards, List.mem_flatMap]
  refine and_congr_left fun _ => exists_congr fun shard => and_congr_right fun _ => ?_
  rw [List.mem_map]
  constructor
  · rintro ⟨⟨key, pointer⟩, listed, entryEq⟩
    exact ⟨pointer, key, mem_pairs.mp ((order.perm _).mem_iff.mp listed), entryEq⟩
  · rintro ⟨pointer, key, lookupEq, entryEq⟩
    exact ⟨(key, pointer), (order.perm _).mem_iff.mpr (mem_pairs.mpr lookupEq), entryEq⟩

/-- Loading what a snapshot lists gives the live part of the map. -/
theorem entriesMap_liveEntries (placed : store.memory.Placed) (now : Time)
    (order : MapOrder EntryPtr) :
    entriesMap (store.liveEntries now order) =
      restrict (fun entry => entry.live now) store.memory.contents := by
  have onlyLive : ∀ key entry,
      restrict (fun entry => entry.live now) store.memory.contents key = some entry ↔
        store.memory.contents key = some entry ∧ entry.live now = true := by
    intro key entry
    rw [restrict, Option.filter_eq_some_iff]
  refine replayUpdates_listing ?_ ?_
  · intro entry
    rw [mem_liveEntries placed, onlyLive]
  · intro key entry found
    exact placed.key_of_contents ((onlyLive key entry).mp found).1

end Store

theorem Entry.live_of_later {entry : Entry} {now later : Time} (order : now ≤ later)
    (live : entry.live later = true) : entry.live now = true := by
  unfold Entry.live at live ⊢
  rw [Bool.or_eq_true] at live ⊢
  rcases live with isZero | before
  · exact Or.inl isZero
  · right
    rw [decide_eq_true_eq] at before ⊢
    exact lt_of_le_of_lt order before

/-! ## Directories that hold a snapshot and a log -/

/-- The content of a snapshot file as it is stored. -/
def packed (env : Externals) (compressed : Bool) (content : Bytes) : Bytes :=
  if compressed then env.gzip content else content

/-- A directory that holds the given entries in the snapshot file a load opens,
and the given records in its log, in formats of the allowed kind. -/
structure Backed (env : Externals) (compressed : Bool)
    (allowed : SerializationFormat → Prop) (disk : Disk) (base : List Entry)
    (records : List WALEntry) : Prop where
  snapshot : ((disk.snapshotBin <|> disk.snapshotJson) = none ∧ base = []) ∨
    ∃ format content, allowed format ∧
      (disk.snapshotBin <|> disk.snapshotJson) = some (packed env compressed content) ∧
      Written env.json format base content
  log : ∃ format, allowed format ∧ Logged env.json format records disk.wal
  known : ∀ record ∈ records, record.Known

section Opening

variable {env : Externals} {compressed : Bool} {allowed : SerializationFormat → Prop}
  {disk : Disk} {base : List Entry} {records : List WALEntry}

theorem Backed.snapshotEntries_eq {opts : Options}
    (backed : Backed env compressed allowed disk base records)
    (lawful : ∀ format, allowed format → format = .json → env.json.Lawful)
    (unzips : compressed = true → ∀ content, env.gunzip (env.gzip content) = some content)
    (sameCompression : opts.enableCompression = compressed)
    (reads : ∀ format, allowed format → ReadsAs opts format) :
    snapshotEntries env opts disk = .ok base := by
  rcases backed.snapshot with ⟨noFile, rfl⟩ | ⟨format, content, isAllowed, file, written⟩
  · rw [snapshotEntries, noFile]
  · obtain ⟨detected, body, header, decoded⟩ :=
      written_reads (lawful format isAllowed) written
    have unpacked : uncompressed env opts (packed env compressed content) = .ok content := by
      unfold uncompressed packed
      rw [sameCompression]
      cases compressed with
      | false => rfl
      | true => simp [unzips rfl content]
    rw [snapshotEntries, file]
    dsimp only
    rw [unpacked]
    dsimp only
    rw [detected, chooseFormat_eq (reads format isAllowed)]
    dsimp only
    rw [header]
    dsimp only
    rw [decoded]

/-- A backed directory opens, and the memory is its log replayed over its
snapshot. -/
theorem Backed.opens {opts : Options}
    (backed : Backed env compressed allowed disk base records)
    (lawful : ∀ format, allowed format → format = .json → env.json.Lawful)
    (unzips : compressed = true → ∀ content, env.gunzip (env.gzip content) = some content)
    (valid : validateOptions (setDefaults opts) = none)
    (sameCompression : opts.enableCompression = compressed)
    (reads : ∀ format, allowed format → ReadsAs opts format) :
    ∃ opened, newKVStore env opts disk = .ok opened ∧ opened.disk = disk ∧
      opened.opts = setDefaults opts ∧ opened.memory.Placed ∧
      opened.memory.contents =
        replayUpdates (records.map WALEntry.update) (entriesMap base) := by
  have entriesEq : snapshotEntries env (setDefaults opts) disk = .ok base :=
    backed.snapshotEntries_eq lawful unzips sameCompression reads
  obtain ⟨format, isAllowed, logged⟩ := backed.log
  have formatReads : ReadsAs (setDefaults opts) format := reads format isAllowed
  have recordsEq : walEntries env (setDefaults opts) disk = .ok records :=
    walEntries_logged (lawful format isAllowed) logged formatReads
  have placed := Memory.placed_newMemory (shardCount_positive valid)
  have loaded := placed.loads base
  have opened : newKVStore env opts disk = .ok
      { opts := setDefaults opts
        memory := records.foldl Memory.replay
          (base.foldl Memory.load (newMemory (setDefaults opts).shardCount.toNat))
        disk := disk } := by
    unfold newKVStore loadData loadSnapshot replayWAL
    rw [valid, entriesEq]
    dsimp only
    rw [recordsEq]
  refine ⟨_, opened, rfl, rfl, loaded.replays records, ?_⟩
  · change (records.foldl Memory.replay _).contents = _
    rw [Memory.contents_replays loaded.positive backed.known,
      Memory.contents_loads placed.positive, Memory.contents_newMemory]
    rfl

end Opening

/-! ## Steps that keep the directory in agreement with the memory -/

/-- The memory is the log of the directory replayed over a start, of which the
snapshot of the directory holds the given entries. -/
structure Durable (env : Externals) (compressed : Bool)
    (allowed : SerializationFormat → Prop) (store : Store) (base : List Entry)
    (records : List WALEntry) (start : Bytes → Option Entry) : Prop where
  backed : Backed env compressed allowed store.disk base records
  contents : store.memory.contents =
    replayUpdates (records.map WALEntry.update) start
  placed : store.memory.Placed
  sized : ∀ key entry, store.memory.contents key = some entry →
    InInt64 entry.version ∧ entry.size = entrySize entry.key entry.value
  compression : store.opts.enableCompression = compressed
  format : allowed store.opts.serializerFormat

/-- What a set may write so that its log record reads back. -/
def SetFits (format : SerializationFormat) (key : Bytes) (expireAt : Int) : Prop :=
  match format with
  | .binary => ExpiryFits expireAt
  | .json => validUTF8 key = true

theorem walFits_of_setFits {format : SerializationFormat} {record : WALEntry} {key : Bytes}
    {expireAt : Int} (keyEq : record.key = key) (expiryEq : record.expireAt = expireAt)
    (version : InInt64 record.version) (fits : SetFits format key expireAt) :
    WALFits format record := by
  cases format with
  | binary =>
    have expiry : ExpiryFits record.expireAt := expiryEq ▸ fits
    exact ⟨expiry, version⟩
  | json =>
    have validKey : validUTF8 record.key = true := keyEq ▸ fits
    exact validKey

/-- The size of an entry the binary format accepts. -/
theorem sizeInInt64 {codec : JsonCodec} {entry : Entry} {data : Bytes}
    (encoded : encodeEntry codec .binary entry = .ok data)
    (sizeEq : entry.size = entrySize entry.key entry.value) : InInt64 entry.size := by
  unfold encodeEntry encodeEntryBinary at encoded
  cases accepted : sizeError entry.key entry.value with
  | some failure => simp [accepted] at encoded
  | none =>
    obtain ⟨keySize, valueSize⟩ := sizes_of_none accepted
    unfold maxKeySize at keySize
    unfold maxValueSize at valueSize
    rw [sizeEq, entrySize]
    constructor <;> omega

/-- The renamed file is the one a load opens. -/
theorem renameSnapshot_found (disk : Disk) {format : SerializationFormat} (content : Bytes)
    (found : format = .json → disk.snapshotBin = none) :
    ((Store.renameSnapshot disk format content).snapshotBin <|>
      (Store.renameSnapshot disk format content).snapshotJson) = some content := by
  cases format with
  | binary => rfl
  | json =>
    have noBinary := found rfl
    change (disk.snapshotBin <|> some content) = some content
    rw [noBinary]
    rfl

theorem renameSnapshot_wal (disk : Disk) (format : SerializationFormat) (content : Bytes) :
    (Store.renameSnapshot disk format content).wal = disk.wal := by
  cases format <;> rfl

namespace Durable

variable {env : Externals} {compressed : Bool} {allowed : SerializationFormat → Prop}
  {store next : Store} {base : List Entry} {records : List WALEntry}
  {start : Bytes → Option Entry}

/-- Logging a record and doing to the memory what it says. -/
theorem append {record : WALEntry} {data : Bytes}
    (durable : Durable env compressed allowed store base records start)
    (logged : Logged env.json store.opts.serializerFormat records store.disk.wal)
    (encoded : encodeWALEntry env.json store.opts.serializerFormat record = .ok data)
    (fits : WALFits store.opts.serializerFormat record)
    (valid : validateWALEntry record = true) (known : record.Known)
    (version : InInt64 record.version)
    (diskEq : next.disk = { store.disk with wal := store.disk.wal ++ data })
    (optsEq : next.opts = store.opts) (placed : next.memory.Placed)
    (contentsEq : next.memory.contents =
      Function.update store.memory.contents record.update.1 record.update.2) :
    Durable env compressed allowed next base (records ++ [record]) start := by
  refine ⟨⟨?_, ?_, ?_⟩, ?_, placed, ?_, ?_, ?_⟩
  · rw [diskEq]
    exact durable.backed.snapshot
  · rw [diskEq]
    exact ⟨_, durable.format, logged.snoc encoded fits valid⟩
  · intro other member
    rcases List.mem_append.mp member with before | isLast
    · exact durable.backed.known other before
    · rw [List.mem_singleton.mp isLast]
      exact known
  · rw [contentsEq, durable.contents, List.map_append, List.map_singleton,
      replayUpdates_snoc]
  · intro key entry found
    rw [contentsEq, Function.update_apply] at found
    split at found
    · unfold WALEntry.update at found
      dsimp only at found
      split at found
      · rw [← Option.some.inj found]
        exact ⟨version, rfl⟩
      · cases found
    · exact durable.sized key entry found
  · rw [optsEq]
    exact durable.compression
  · rw [optsEq]
    exact durable.format

/-- A set that succeeds without an eviction. -/
theorem set {key value : Bytes} {ttl : Int} {now : Time} {fault : Option Nat}
    (durable : Durable env compressed allowed store base records start)
    (logged : Logged env.json store.opts.serializerFormat records store.disk.wal)
    (fits : SetFits store.opts.serializerFormat key (Store.setExpiry ttl now))
    (returned : store.set env key value ttl now fault = (next, none))
    (unevicted : next.memory.evictions = store.memory.evictions) :
    (∃ record, Durable env compressed allowed next base (records ++ [record]) start) ∧
      next.opts = store.opts ∧
      ∃ version, next.memory.contents = Function.update store.memory.contents key
        (some { key := key, value := value, expireAt := Store.setExpiry ttl now,
                size := entrySize key value, version := version }) := by
  have outcome := Store.set_outcome env store key value ttl now fault
  rw [returned] at outcome
  cases outcome with
  | @stored memory record data isOpen writable ensured recordEq encoded =>
    have sameMemory : memory = store.memory := by
      have same := Memory.ensureCapacityForSet_unevicted store.memory store.opts key
        (entrySize key value)
      rw [ensured] at same
      refine same ?_
      rw [← unevicted]
      exact (Memory.put_evictions memory record.toEntry).symm
    subst sameMemory
    have isSet : record.op = opSet := by rw [recordEq]; rfl
    have keyEq : record.key = key := by rw [recordEq]; rfl
    have updateEq : record.update = (key, some record.toEntry) := by
      rw [WALEntry.update, if_pos isSet, keyEq]
    have version : InInt64 record.version := by
      rw [recordEq]
      exact inInt64_wrapInt64 _
    have expiryEq : record.expireAt = Store.setExpiry ttl now := by rw [recordEq]; rfl
    have recordFits := walFits_of_setFits keyEq expiryEq version fits
    have valid : validateWALEntry record = true := by
      rw [recordEq]
      exact validateWALEntry_checked _
    have contentsEq := Memory.contents_put durable.placed.positive record.toEntry
    have entryKey : record.toEntry.key = key := keyEq
    rw [entryKey] at contentsEq
    refine ⟨⟨record, durable.append logged encoded recordFits valid (Or.inl isSet) version
      rfl rfl (durable.placed.put record.toEntry) ?_⟩, rfl, record.version, ?_⟩
    · rw [updateEq]
      exact contentsEq
    · refine contentsEq.trans ?_
      rw [recordEq]
      rfl

/-- A deletion that succeeds. -/
theorem delete {key : Bytes} {fault : Option Nat}
    (durable : Durable env compressed allowed store base records start)
    (logged : Logged env.json store.opts.serializerFormat records store.disk.wal)
    (fits : SetFits store.opts.serializerFormat key zeroTime)
    (returned : store.delete env key fault = (next, none)) :
    (∃ record, Durable env compressed allowed next base (records ++ [record]) start) ∧
      next.opts = store.opts ∧
      next.memory.contents = Function.update store.memory.contents key none := by
  have outcome := Store.delete_outcome env store key fault
  rw [returned] at outcome
  cases outcome with
  | @deleted record data isOpen writable recordEq encoded present =>
    have isDelete : record.op = opDelete := by rw [recordEq]; rfl
    have keyEq : record.key = key := by rw [recordEq]; rfl
    have updateEq : record.update = (key, none) := by
      rw [WALEntry.update, isDelete, if_neg (by decide), keyEq]
    have version : InInt64 record.version := by
      rw [recordEq]
      exact inInt64_wrapInt64 _
    have expiryEq : record.expireAt = zeroTime := by rw [recordEq]; rfl
    have recordFits := walFits_of_setFits keyEq expiryEq version fits
    have valid : validateWALEntry record = true := by
      rw [recordEq]
      exact validateWALEntry_checked _
    have contentsEq := Memory.contents_remove store.memory key
    refine ⟨⟨record, durable.append logged encoded recordFits valid (Or.inr isDelete)
      version rfl rfl (durable.placed.remove key) ?_⟩, rfl, contentsEq⟩
    rw [updateEq]
    exact contentsEq

/-- A snapshot file that could be written, as it is stored. -/
theorem snapshotFile_written {created now : Time} {order : MapOrder EntryPtr}
    {content : Bytes} (durable : Durable env compressed allowed store base records start)
    (fits : ∀ entry ∈ store.liveEntries now order,
      SetFits store.opts.serializerFormat entry.key entry.expireAt)
    (written : store.snapshotFile env created now order = .ok content) :
    ∃ plain, content = packed env compressed plain ∧
      Written env.json store.opts.serializerFormat (store.liveEntries now order) plain := by
  unfold Store.snapshotFile at written
  cases encoded : Store.encodeEntries env store.opts.serializerFormat
      (store.liveEntries now order) with
  | error failure => simp [encoded] at written
  | ok body =>
    rw [encoded] at written
    dsimp only at written
    obtain ⟨bodyEq, encodes⟩ := encodeEntries_ok encoded
    refine ⟨snapshotHeader env.json store.opts.serializerFormat created ++ body, ?_,
      ⟨created, by rw [bodyEq]⟩, encodes, ?_⟩
    · rw [← Except.ok.inj written, packed, durable.compression]
    · intro entry member
      have inMemory := ((Store.mem_liveEntries durable.placed).mp member).1
      obtain ⟨version, size⟩ := durable.sized entry.key entry inMemory
      obtain ⟨data, entryEncoded⟩ := encodes entry member
      have entryFits := fits entry member
      revert entryEncoded entryFits
      cases store.opts.serializerFormat with
      | binary =>
        intro entryEncoded expiry
        exact ⟨expiry, version, sizeInInt64 entryEncoded size⟩
      | json => exact fun _ validKey => validKey

/-- A snapshot that succeeds starts an empty log over the live entries. -/
theorem snapshot {created now : Time} {order : MapOrder EntryPtr}
    {fault : Option Store.SnapshotFault}
    (durable : Durable env compressed allowed store base records start)
    (found : store.opts.serializerFormat = .json → store.disk.snapshotBin = none)
    (fits : ∀ entry ∈ store.liveEntries now order,
      SetFits store.opts.serializerFormat entry.key entry.expireAt)
    (returned : store.snapshot env created now order fault = (next, none)) :
    Durable env compressed allowed next (store.liveEntries now order) []
        store.memory.contents ∧
      next.opts = store.opts ∧ next.memory = store.memory := by
  obtain ⟨content, written, rfl⟩ := Store.snapshot_ok returned
  obtain ⟨plain, contentEq, plainWritten⟩ := durable.snapshotFile_written fits written
  refine ⟨⟨⟨Or.inr ⟨_, plain, durable.format, ?_, plainWritten⟩,
    ⟨_, durable.format, logged_nil _ _⟩, List.forall_mem_nil _⟩,
    rfl, durable.placed, durable.sized, durable.compression, durable.format⟩, rfl, rfl⟩
  rw [← contentEq]
  exact renameSnapshot_found store.disk content found

/-- The directory between the rename of a snapshot and the truncation of the
log: the whole old log over the live entries. -/
theorem renamed {created now : Time} {order : MapOrder EntryPtr} {content : Bytes}
    (durable : Durable env compressed allowed store base records start)
    (found : store.opts.serializerFormat = .json → store.disk.snapshotBin = none)
    (fits : ∀ entry ∈ store.liveEntries now order,
      SetFits store.opts.serializerFormat entry.key entry.expireAt)
    (written : store.snapshotFile env created now order = .ok content) :
    Backed env compressed allowed
      (Store.renameSnapshot store.disk store.opts.serializerFormat content)
      (store.liveEntries now order) records := by
  obtain ⟨plain, contentEq, plainWritten⟩ := durable.snapshotFile_written fits written
  refine ⟨Or.inr ⟨_, plain, durable.format, ?_, plainWritten⟩, ?_, durable.backed.known⟩
  · rw [← contentEq]
    exact renameSnapshot_found store.disk content found
  · rw [renameSnapshot_wal]
    exact durable.backed.log

end Durable

/-! ## Durability of the binary format -/

/-- A store as a machine of successful calls that evict nothing. -/
def writeMachine (env : Externals) : Machine Store StoreOp Unit where
  step := fun store op =>
    match store.apply env op with
    | (next, none) =>
      if next.memory.evictions = store.memory.evictions then some (next, ()) else none
    | (_, some _) => none

theorem writeMachine_step {env : Externals} {store next : Store} {op : StoreOp}
    (stepped : (writeMachine env).step store op = some (next, ())) :
    store.apply env op = (next, none) ∧ next.memory.evictions = store.memory.evictions := by
  change (match store.apply env op with
    | (next, none) =>
      if next.memory.evictions = store.memory.evictions then some (next, ()) else none
    | (_, some _) => none) = some (next, ()) at stepped
  cases applied : store.apply env op with
  | mk later failure =>
    rw [applied] at stepped
    cases failure with
    | some failure => cases stepped
    | none =>
      dsimp only at stepped
      split at stepped
      · rename_i unevicted
        rw [Option.some.injEq, Prod.mk.injEq] at stepped
        obtain ⟨rfl, -⟩ := stepped
        exact ⟨rfl, unevicted⟩
      · cases stepped

/-- The calls of a durable run: sets with an expiry from 1970 to 2262 or none,
deletions, and snapshots taken no later than a given instant. -/
def DurableCall (now : Time) : StoreOp → Prop
  | .set _ _ ttl instant _ => ExpiryFits (Store.setExpiry ttl instant)
  | .delete _ _ => True
  | .snapshot _ taken _ _ => taken ≤ now
  | .get _ _ _ _ => False
  | .cleanExpired _ _ => False
  | .close => False
  | .reopen _ => False

/-- The entries in memory that are live at an instant. -/
def Memory.liveAt (memory : Memory) (now : Time) : Bytes → Option Entry :=
  restrict (fun entry => entry.live now) memory.contents

/-- Opening the directory gives the live entries of the memory. -/
def Recovers (env : Externals) (reader : Options) (disk : Disk) (now : Time)
    (memory : Memory) : Prop :=
  ∃ recovered, newKVStore env reader disk = .ok recovered ∧
    recovered.memory.liveAt now = memory.liveAt now

/-- What holds along a durable run. -/
def BinaryDurable (env : Externals) (compressed : Bool) (now : Time) (store : Store) : Prop :=
  ∃ base records start taken,
    Durable env compressed (· = .binary) store base records start ∧ taken ≤ now ∧
    entriesMap base = restrict (fun entry => entry.live taken) start ∧
    ∀ key entry, store.memory.contents key = some entry → ExpiryFits entry.expireAt

theorem Durable.logged_binary {env : Externals} {compressed : Bool} {store : Store}
    {base : List Entry} {records : List WALEntry} {start : Bytes → Option Entry}
    (durable : Durable env compressed (· = .binary) store base records start) :
    Logged env.json store.opts.serializerFormat records store.disk.wal := by
  obtain ⟨format, isBinary, logged⟩ := durable.backed.log
  rw [durable.format, ← isBinary]
  exact logged

/-- One step: a call of a durable run keeps the directory in agreement. -/
theorem BinaryDurable.step {env : Externals} {compressed : Bool} {now : Time}
    {store next : Store} {op : StoreOp} (inv : BinaryDurable env compressed now store)
    (allowed : DurableCall now op)
    (stepped : (writeMachine env).step store op = some (next, ())) :
    BinaryDurable env compressed now next := by
  obtain ⟨base, records, start, taken, durable, inTime, baseEq, expiries⟩ := inv
  obtain ⟨applied, unevicted⟩ := writeMachine_step stepped
  have logged := durable.logged_binary
  cases op with
  | set key value ttl instant fault =>
    have fits : SetFits store.opts.serializerFormat key (Store.setExpiry ttl instant) := by
      rw [durable.format]
      exact allowed
    obtain ⟨⟨record, durableNow⟩, -, version, contentsEq⟩ :=
      durable.set logged fits applied unevicted
    refine ⟨base, records ++ [record], start, taken, durableNow, inTime, baseEq, ?_⟩
    intro otherKey entry found
    rw [contentsEq, Function.update_apply] at found
    split at found
    · rw [← Option.some.inj found]
      exact allowed
    · exact expiries otherKey entry found
  | delete key fault =>
    have fits : SetFits store.opts.serializerFormat key zeroTime := by
      rw [durable.format]
      exact Or.inl rfl
    obtain ⟨⟨record, durableNow⟩, -, contentsEq⟩ := durable.delete logged fits applied
    refine ⟨base, records ++ [record], start, taken, durableNow, inTime, baseEq, ?_⟩
    intro otherKey entry found
    rw [contentsEq, Function.update_apply] at found
    split at found
    · cases found
    · exact expiries otherKey entry found
  | snapshot created instant order fault =>
    have fits : ∀ entry ∈ store.liveEntries instant order,
        SetFits store.opts.serializerFormat entry.key entry.expireAt := by
      intro entry member
      rw [durable.format]
      exact expiries entry.key entry ((Store.mem_liveEntries durable.placed).mp member).1
    have found : store.opts.serializerFormat = .json → store.disk.snapshotBin = none := by
      rw [durable.format]
      exact fun isJson => nomatch isJson
    obtain ⟨durableNow, -, memoryEq⟩ := durable.snapshot found fits applied
    refine ⟨store.liveEntries instant order, [], store.memory.contents, instant, durableNow, allowed,
      Store.entriesMap_liveEntries durable.placed instant order, ?_⟩
    rw [memoryEq]
    exact expiries
  | get key instant wait locked | cleanExpired instant order | close | reopen opts =>
    exact absurd allowed id

theorem BinaryDurable.opened {env : Externals} {opts : Options} {start : Store} (now : Time)
    (binary : opts.serializerFormat = .binary)
    (opened : newKVStore env opts {} = .ok start) :
    BinaryDurable env opts.enableCompression now start := by
  obtain ⟨valid, entries, records, entriesEq, recordsEq, rfl⟩ := newKVStore_ok opened
  have noEntries : entries = [] := (Except.ok.inj entriesEq).symm
  have noRecords : records = [] := by
    have empty : walEntries env (setDefaults opts) {} = .ok [] := rfl
    rw [empty] at recordsEq
    exact (Except.ok.inj recordsEq).symm
  subst noEntries noRecords
  have nothing : (newMemory (setDefaults opts).shardCount.toNat).contents = fun _ => none :=
    Memory.contents_newMemory _
  have absent : ∀ key entry,
      (newMemory (setDefaults opts).shardCount.toNat).contents key ≠ some entry := by
    intro key entry found
    rw [nothing] at found
    cases found
  refine ⟨[], [], fun _ => none, now, ⟨⟨Or.inl ⟨rfl, rfl⟩, ⟨.binary, rfl, logged_nil _ _⟩,
    List.forall_mem_nil _⟩, nothing,
    Memory.placed_newMemory (shardCount_positive valid),
    fun key entry found => absurd found (absent key entry), rfl, binary⟩, le_refl _, rfl,
    fun key entry found => absurd found (absent key entry)⟩

/-- Recovery from a directory that agrees with the memory, up to entries that
are no longer live. -/
theorem Backed.recovers {env : Externals} {compressed : Bool} {disk : Disk}
    {base : List Entry} {records : List WALEntry} {memory : Memory} {reader : Options}
    {now : Time} (backed : Backed env compressed (· = .binary) disk base records)
    (unzips : compressed = true → ∀ content, env.gunzip (env.gzip content) = some content)
    (valid : validateOptions (setDefaults reader) = none)
    (sameCompression : reader.enableCompression = compressed)
    (reads : ReadsAs reader .binary)
    (agrees : restrict (fun entry => entry.live now)
      (replayUpdates (records.map WALEntry.update) (entriesMap base)) = memory.liveAt now) :
    Recovers env reader disk now memory := by
  have noJson : ∀ format : SerializationFormat, format = .binary → format = .json →
      env.json.Lawful := by
    rintro format rfl isJson
    cases isJson
  obtain ⟨recovered, opened, -, -, -, contentsEq⟩ := backed.opens noJson unzips valid
    sameCompression fun format isBinary => isBinary ▸ reads
  refine ⟨recovered, opened, ?_⟩
  rw [Memory.liveAt, contentsEq, agrees]

/-- After any run of successful sets, deletions and snapshots in the binary
format without an eviction, opening the directory gives exactly the live
entries of the memory; and so it does when the process stopped between the
rename of another snapshot and the truncation of the log. -/
theorem durable_recovers (env : Externals) (opts reader : Options) (start : Store)
    (ops : List StoreOp) (state : Store) (now : Time)
    (unzips : opts.enableCompression = true →
      ∀ content, env.gunzip (env.gzip content) = some content)
    (binary : opts.serializerFormat = .binary)
    (opened : newKVStore env opts {} = .ok start)
    (calls : ∀ op ∈ ops, DurableCall now op)
    (ran : (writeMachine env).run start ops = some state)
    (valid : validateOptions (setDefaults reader) = none)
    (sameCompression : reader.enableCompression = opts.enableCompression)
    (reads : ReadsAs reader .binary) :
    Recovers env reader state.disk now state.memory ∧
      ∀ created taken order content, taken ≤ now →
        state.snapshotFile env created taken order = .ok content →
        Recovers env reader (Store.renameSnapshot state.disk .binary content) now
          state.memory := by
  have inv : BinaryDurable env opts.enableCompression now state := by
    refine Machine.run_invariant ?_ (BinaryDurable.opened now binary opened) calls ran
    exact fun store op next out allowed before stepped => before.step allowed stepped
  obtain ⟨base, records, initial, snapshotTime, durable, inTime, baseEq, expiries⟩ := inv
  refine ⟨durable.backed.recovers unzips valid sameCompression reads ?_, ?_⟩
  · rw [baseEq, Memory.liveAt, durable.contents]
    exact restrict_replay _ _ fun entry live => Entry.live_of_later inTime live
  · intro created taken order content beforeNow written
    have fits : ∀ entry ∈ state.liveEntries taken order,
        SetFits state.opts.serializerFormat entry.key entry.expireAt := by
      intro entry member
      rw [durable.format]
      exact expiries entry.key entry ((Store.mem_liveEntries durable.placed).mp member).1
    have found : state.opts.serializerFormat = .json → state.disk.snapshotBin = none := by
      rw [durable.format]
      exact fun isJson => nomatch isJson
    have backed := durable.renamed found fits written
    rw [durable.format] at backed
    refine backed.recovers unzips valid sameCompression reads ?_
    rw [Store.entriesMap_liveEntries durable.placed, Memory.liveAt, durable.contents]
    exact restrict_replay_again _ _ fun entry live => Entry.live_of_later beforeNow live

/-- A store on an empty directory, with all defaults. -/
def freshStore : Store where
  opts := setDefaults {}
  memory := newMemory 16
  disk := {}

/-- A set without and one with an expiry, a snapshot, and a deletion after
it. -/
def durableOps : List StoreOp :=
  [.set (ascii "a") [1] 0 1000 none, .set (ascii "b") [2] 500 1000 none,
    .snapshot 1000 1000 (listedOrder EntryPtr) none, .delete (ascii "a") none]

/-- The store after those calls. -/
def durableStore : Store := ((writeMachine uncalled).run freshStore durableOps).getD freshStore

theorem durable_recovers_calls :
    (writeMachine uncalled).run freshStore durableOps = some durableStore ∧
      Recovers uncalled {} durableStore.disk 1200 durableStore.memory ∧
      (durableStore.memory.liveAt 1200 (ascii "b")).isSome ∧
      durableStore.memory.liveAt 1200 (ascii "a") = none := by
  have ran : (writeMachine uncalled).run freshStore durableOps = some durableStore := by
    have succeeds : ((writeMachine uncalled).run freshStore durableOps).isSome = true := by
      decide +kernel
    obtain ⟨state, stateEq⟩ := Option.isSome_iff_exists.mp succeeds
    rw [durableStore, stateEq, Option.getD_some]
  have calls : ∀ op ∈ durableOps, DurableCall 1200 op := by
    intro op member
    simp only [durableOps, List.mem_cons, List.not_mem_nil, or_false] at member
    rcases member with rfl | rfl | rfl | rfl
    · exact Or.inl rfl
    · exact Or.inr ⟨by decide, by decide⟩
    · exact (by decide : (1000 : Int) ≤ 1200)
    · trivial
  refine ⟨ran, ?_, by decide +kernel, by decide +kernel⟩
  exact (durable_recovers uncalled {} {} freshStore durableOps durableStore 1200
    (fun enabled => nomatch enabled) rfl rfl calls ran (by decide) rfl (Or.inl rfl)).1

end Plumego.KvEngine
