/-
Module: Plumego.Proofs.KvSessions
Purpose: Sessions of the key-value engine on one directory, each in a format of
  its own: when opening the directory again gives back the map that the last
  session left, and how a change of format loses it.
Trusted boundary: `JsonCodec.Lawful`.
Main exports: SessionCall, FormatSafe, sessions_recover, sessions_lose_snapshot
-/
import Plumego.Proofs.KvRecovery

namespace Plumego.KvEngine

open Go Lib

/-! ## Sessions -/

/-- The calls of a session without expiry: sets, deletions, snapshots with
nothing expired, and closing and opening again with format detection and
without compression. -/
def SessionCall (store : Store) : StoreOp → Prop
  | .set _ _ _ _ _ => True
  | .delete _ _ => True
  | .snapshot _ now _ _ => ∀ pointer ∈ store.memory.held, pointer.entry.live now = true
  | .reopen opts => opts.autoDetectMode = .enabled ∧ opts.enableCompression = false
  | .get _ _ _ _ => False
  | .cleanExpired _ _ => False
  | .close => False

/-- The log is empty or in the session's format. -/
def LogMatches (store : Store) : Prop :=
  store.disk.wal = [] ∨
    detectWALFormat store.disk.wal = .ok store.opts.serializerFormat

/-- What keeps the directory readable: a log of one format, no JSON snapshot
beside a binary one, and keys and expiries that the session's format can
hold. -/
def FormatSafe (store : Store) : StoreOp → Prop
  | .set key _ ttl now _ =>
    LogMatches store ∧ SetFits store.opts.serializerFormat key (Store.setExpiry ttl now)
  | .delete key _ => LogMatches store ∧ SetFits store.opts.serializerFormat key zeroTime
  | .snapshot _ _ _ _ =>
    (store.opts.serializerFormat = .json → store.disk.snapshotBin = none) ∧
      ∀ pointer ∈ store.memory.held,
        SetFits store.opts.serializerFormat pointer.entry.key pointer.entry.expireAt
  | .reopen _ => True
  | .get _ _ _ _ => True
  | .cleanExpired _ _ => True
  | .close => True

instance (format : SerializationFormat) (key : Bytes) (expireAt : Int) :
    Decidable (SetFits format key expireAt) := by
  cases format <;> dsimp only [SetFits] <;> infer_instance

instance (store : Store) (op : StoreOp) : Decidable (SessionCall store op) := by
  cases op <;> dsimp only [SessionCall] <;> infer_instance

instance decidableDetected (detected : Except GoError SerializationFormat)
    (format : SerializationFormat) : Decidable (detected = .ok format) :=
  match detected with
  | .ok found =>
    if same : found = format then isTrue (by rw [same])
    else isFalse fun equal => same (Except.ok.inj equal)
  | .error _ => isFalse fun equal => nomatch equal

instance (store : Store) : Decidable (LogMatches store) :=
  inferInstanceAs (Decidable (_ ∨ _))

instance (store : Store) (op : StoreOp) : Decidable (FormatSafe store op) := by
  cases op <;> dsimp only [FormatSafe] <;> infer_instance

/-! ## Runs of sessions -/

/-- The directory holds the memory exactly. -/
def SessionDurable (env : Externals) (store : Store) : Prop :=
  ∃ base records, Durable env false (fun _ => True) store base records (entriesMap base)

/-- A log that matches the session's format was written in it. -/
theorem Backed.logged_as {env : Externals} {disk : Disk} {base : List Entry}
    {records : List WALEntry} {format : SerializationFormat} (lawful : env.json.Lawful)
    (backed : Backed env false (fun _ => True) disk base records)
    (sameFormat : disk.wal = [] ∨ detectWALFormat disk.wal = .ok format) :
    Logged env.json format records disk.wal := by
  obtain ⟨written, -, logged⟩ := backed.log
  cases records with
  | nil =>
    have empty : disk.wal = [] := logged.bytes
    rw [empty]
    exact logged_nil _ _
  | cons record rest =>
    obtain ⟨data, encoded⟩ := logged.encodes record List.mem_cons_self
    have walEq : disk.wal = data ++ rest.flatMap (walBytes env.json written) := by
      rw [logged.bytes, List.flatMap_cons, walBytes, encoded]
    obtain ⟨notEmpty, detected⟩ := encodeWALEntry_ne_nil (fun _ => lawful) encoded
      (rest.flatMap (walBytes env.json written))
    rw [← walEq] at notEmpty detected
    rcases sameFormat with empty | sameDetected
    · exact absurd empty notEmpty
    · rw [detected] at sameDetected
      exact Except.ok.inj sameDetected ▸ logged

/-- A directory that agrees with the memory opens with its map. -/
theorem SessionDurable.opens {env : Externals} {store : Store} {opts : Options}
    (lawful : env.json.Lawful) (durable : SessionDurable env store)
    (valid : validateOptions (setDefaults opts) = none)
    (detects : opts.autoDetectMode = .enabled) (plain : opts.enableCompression = false) :
    ∃ opened, newKVStore env opts store.disk = .ok opened ∧ SessionDurable env opened ∧
      opened.memory.contents = store.memory.contents := by
  obtain ⟨base, records, durable⟩ := durable
  obtain ⟨opened, openedEq, diskEq, optsEq, placed, contentsEq⟩ :=
    durable.backed.opens (fun _ _ _ => lawful) (fun isCompressed => nomatch isCompressed) valid
      plain fun _ _ => Or.inl detects
  have sameContents : opened.memory.contents = store.memory.contents := by
    rw [contentsEq, durable.contents]
  refine ⟨opened, openedEq, ⟨base, records, ?_, contentsEq, placed, ?_, ?_, trivial⟩,
    sameContents⟩
  · rw [diskEq]
    exact durable.backed
  · intro key entry found
    rw [sameContents] at found
    exact durable.sized key entry found
  · rw [optsEq]
    exact plain

theorem SessionDurable.unopened (env : Externals) :
    SessionDurable env (Store.unopened {}) := by
  have nothing : (newMemory 1).contents = fun _ => none := Memory.contents_newMemory 1
  refine ⟨[], [], ⟨Or.inl ⟨rfl, rfl⟩, ⟨.binary, trivial, logged_nil _ _⟩,
    List.forall_mem_nil _⟩, nothing,
    Memory.placed_newMemory Nat.zero_lt_one, ?_, rfl, trivial⟩
  intro key entry found
  change (newMemory 1).contents key = some entry at found
  rw [nothing] at found
  cases found

/-- One step: a call that keeps the directory readable keeps it in agreement
with the memory. -/
theorem SessionDurable.step {env : Externals} {store next : Store} {op : StoreOp}
    (lawful : env.json.Lawful) (inv : SessionDurable env store)
    (inSession : SessionCall store op) (safe : FormatSafe store op)
    (stepped : (writeMachine env).step store op = some (next, ())) :
    SessionDurable env next := by
  obtain ⟨applied, unevicted⟩ := writeMachine_step stepped
  have durableStore := inv
  obtain ⟨base, records, durable⟩ := inv
  cases op with
  | set key value ttl now fault =>
    have logged := durable.backed.logged_as lawful safe.1
    obtain ⟨⟨record, durableNow⟩, -, -⟩ := durable.set logged safe.2 applied unevicted
    exact ⟨base, records ++ [record], durableNow⟩
  | delete key fault =>
    have logged := durable.backed.logged_as lawful safe.1
    obtain ⟨⟨record, durableNow⟩, -, -⟩ := durable.delete logged safe.2 applied
    exact ⟨base, records ++ [record], durableNow⟩
  | snapshot created now order fault =>
    have fits : ∀ entry ∈ store.liveEntries now order,
        SetFits store.opts.serializerFormat entry.key entry.expireAt := by
      intro entry member
      have inMemory := ((Store.mem_liveEntries durable.placed).mp member).1
      obtain ⟨pointer, isHeld, rfl⟩ := durable.placed.mem_held.mpr inMemory
      exact safe.2 pointer isHeld
    have allLive : restrict (fun entry => entry.live now) store.memory.contents =
        store.memory.contents := by
      funext key
      rw [restrict]
      cases found : store.memory.contents key with
      | none => rfl
      | some entry =>
        have keyEq := durable.placed.key_of_contents found
        obtain ⟨pointer, isHeld, rfl⟩ :=
          durable.placed.mem_held.mpr (show store.memory.contents entry.key = some entry by
            rw [keyEq, found])
        simp only [Option.filter_some, inSession pointer isHeld, if_true]
    obtain ⟨durableNow, -, -⟩ := durable.snapshot safe.1 fits applied
    rw [← allLive, ← Store.entriesMap_liveEntries durable.placed now order] at durableNow
    exact ⟨_, [], durableNow⟩
  | reopen opts =>
    cases opened : newKVStore env opts store.disk with
    | error failure => simp [Store.apply, opened] at applied
    | ok found =>
      simp only [Store.apply, opened] at applied
      have nextEq : found = next := congrArg Prod.fst applied
      obtain ⟨valid, -⟩ := newKVStore_ok opened
      obtain ⟨again, againEq, durableAgain, -⟩ :=
        durableStore.opens lawful valid inSession.1 inSession.2
      rw [opened] at againEq
      rw [← nextEq, Except.ok.inj againEq]
      exact durableAgain
  | get key now wait locked | cleanExpired now order | close => exact absurd inSession id

/-- In every run of sessions on a directory whose steps all meet the condition,
opening the directory again, with any format, succeeds and gives exactly the
map that the run has left. -/
theorem sessions_recover (env : Externals) (lawful : env.json.Lawful) (ops : List StoreOp)
    (meets : (writeMachine env).Meets
      (fun store op => SessionCall store op ∧ FormatSafe store op) (Store.unopened {}) ops)
    (state : Store) (reached : (writeMachine env).Reaches (Store.unopened {}) ops state)
    (opts : Options) (valid : validateOptions (setDefaults opts) = none)
    (detects : opts.autoDetectMode = .enabled) (plain : opts.enableCompression = false) :
    ∃ opened, newKVStore env opts state.disk = .ok opened ∧
      opened.memory.contents = state.memory.contents := by
  have inv : SessionDurable env state := by
    refine Machine.reaches_invariant ?_ (SessionDurable.unopened env) meets reached
    exact fun store op next out before met stepped => before.step lawful met.1 met.2 stepped
  obtain ⟨opened, openedEq, -, contentsEq⟩ := inv.opens lawful valid detects plain
  exact ⟨opened, openedEq, contentsEq⟩

/-! ## Sample sessions -/

/-- A codec given by the texts of a few records and entries. -/
def tableCodec (records : List (WALEntry × Bytes)) (entries : List (Entry × Bytes))
    (headerLine : Bytes) : JsonCodec where
  marshalWAL := fun record => (records.find? (·.1 = record)).map (·.2)
  unmarshalWAL := fun line => (records.find? (·.2 = line)).map (·.1)
  marshalEntry := fun entry => (entries.find? (·.1 = entry)).map (·.2)
  unmarshalEntry := fun line => (entries.find? (·.2 = line)).map (·.1)
  header := fun _ => headerLine
  unmarshalHeader := fun line => line == headerLine

/-- The shape of an object line, as a check. -/
def objectLine (line : Bytes) : Bool :=
  line.take 2 == [123, 34] && (line.drop 2).getLast? == some 125 && !line.contains newline

theorem isObjectLine_of_check {line : Bytes} (check : objectLine line = true) :
    IsObjectLine line := by
  rw [objectLine, Bool.and_eq_true, Bool.and_eq_true, beq_iff_eq, beq_iff_eq,
    Bool.not_eq_true', List.contains_eq_mem, decide_eq_false_iff_not] at check
  obtain ⟨⟨front, last⟩, oneLine⟩ := check
  obtain ⟨body, bodyEq⟩ := List.getLast?_eq_some_iff.mp last
  refine ⟨⟨body, ?_⟩, oneLine⟩
  rw [← List.take_append_drop 2 line, front, bodyEq]
  rfl

/-- A table of object lines with valid and distinct contents is lawful. -/
theorem tableCodec_lawful {records : List (WALEntry × Bytes)} {entries : List (Entry × Bytes)}
    {headerLine : Bytes}
    (recordsFit : ∀ pair ∈ records, objectLine pair.2 = true ∧ validUTF8 pair.1.key = true ∧
      records.find? (·.2 = pair.2) = some pair)
    (entriesFit : ∀ pair ∈ entries, objectLine pair.2 = true ∧ validUTF8 pair.1.key = true ∧
      entries.find? (·.2 = pair.2) = some pair)
    (headerFits : objectLine headerLine = true) :
    (tableCodec records entries headerLine).Lawful := by
  have recordOf : ∀ record line,
      (tableCodec records entries headerLine).marshalWAL record = some line →
      (record, line) ∈ records := by
    intro record line marshalled
    obtain ⟨pair, found, lineEq⟩ := Option.map_eq_some_iff.mp marshalled
    have isRecord : pair.1 = record := by simpa using List.find?_some found
    rw [← isRecord, ← lineEq]
    exact List.mem_of_find?_eq_some found
  have entryOf : ∀ entry line,
      (tableCodec records entries headerLine).marshalEntry entry = some line →
      (entry, line) ∈ entries := by
    intro entry line marshalled
    obtain ⟨pair, found, lineEq⟩ := Option.map_eq_some_iff.mp marshalled
    have isEntry : pair.1 = entry := by simpa using List.find?_some found
    rw [← isEntry, ← lineEq]
    exact List.mem_of_find?_eq_some found
  refine ⟨?_, ?_, ?_, ?_, fun _ => isObjectLine_of_check headerFits, fun _ => ?_⟩
  · exact fun record line marshalled =>
      isObjectLine_of_check (recordsFit _ (recordOf record line marshalled)).1
  · intro record line marshalled
    obtain ⟨-, validKey, found⟩ := recordsFit _ (recordOf record line marshalled)
    change (records.find? (·.2 = line)).map (·.1) = _
    rw [found, coerceUTF8_of_valid validKey]
    rfl
  · exact fun entry line marshalled =>
      isObjectLine_of_check (entriesFit _ (entryOf entry line marshalled)).1
  · intro entry line marshalled
    obtain ⟨-, validKey, found⟩ := entriesFit _ (entryOf entry line marshalled)
    change (entries.find? (·.2 = line)).map (·.1) = _
    rw [found, coerceUTF8_of_valid validKey]
    rfl
  · exact beq_self_eq_true headerLine

/-- The log record of the first set of a session, of `b` to the byte 2. -/
def sampleRecord : WALEntry := Store.checked
  { op := opSet, key := ascii "b", value := [2], version := 1 }

/-- The entry of `a` in a snapshot. -/
def sampleFirst : Entry := { key := ascii "a", value := [1], size := 66, version := 1 }

/-- The entry of `b` in a snapshot. -/
def sampleSecond : Entry := { key := ascii "b", value := [2], size := 66, version := 1 }

/-- The texts `encoding/json` gives for the sample records and entries, and for
the header of a snapshot taken at the epoch. -/
def sampleJson : JsonCodec :=
  tableCodec
    [(sampleRecord, ascii ("\x7b\"op\":1,\"key\":\"b\",\"value\":\"Ag==\"," ++
      "\"expire_at\":\"0001-01-01T00:00:00Z\",\"version\":1,\"crc\":3133574656\x7d"))]
    [(sampleFirst, ascii ("\x7b\"key\":\"a\",\"value\":\"AQ==\"," ++
      "\"expire_at\":\"0001-01-01T00:00:00Z\",\"size\":66,\"version\":1\x7d")),
      (sampleSecond, ascii ("\x7b\"key\":\"b\",\"value\":\"Ag==\"," ++
        "\"expire_at\":\"0001-01-01T00:00:00Z\",\"size\":66,\"version\":1\x7d"))]
    (ascii ("\x7b\"created\":\"1970-01-01T00:00:00Z\",\"format\":\"json\"," ++
      "\"magic\":1263948628,\"version\":1\x7d"))

example : sampleRecord.crc = 3133574656 := by decide +kernel

/-- The sample texts, without compression. -/
def sampleExternals : Externals := { uncalled with json := sampleJson }

/-- Default options in the binary format. -/
def binaryOptions : Options := {}

/-- Default options in the JSON format. -/
def jsonOptions : Options := { serializerFormat := .json }

theorem sampleJson_lawful : sampleJson.Lawful :=
  tableCodec_lawful (by decide +kernel) (by decide +kernel) (by decide +kernel)

/-- A JSON session, then a binary one that first takes a snapshot. -/
def changedFormat : List StoreOp :=
  [.reopen jsonOptions, .set (ascii "b") [2] 0 0 none, .reopen binaryOptions,
    .snapshot 0 0 (listedOrder EntryPtr) none, .set (ascii "a") [1] 0 0 none]

/-- The store after those sessions. -/
def changedStore : Store :=
  ((writeMachine sampleExternals).run (Store.unopened {}) changedFormat).getD
    (Store.unopened {})

theorem changedStore_reached :
    (writeMachine sampleExternals).Reaches (Store.unopened {}) changedFormat changedStore := by
  have succeeds : ((writeMachine sampleExternals).run (Store.unopened {})
      changedFormat).isSome = true := by decide +kernel
  obtain ⟨state, stateEq⟩ := Option.isSome_iff_exists.mp succeeds
  refine ⟨changedFormat, List.prefix_refl _, ?_⟩
  rw [changedStore, stateEq, Option.getD_some]

/-- Sessions in both formats that meet the condition. -/
theorem sessions_recover_changed :
    (changedStore.memory.contents (ascii "a")).isSome ∧
      (changedStore.memory.contents (ascii "b")).isSome ∧
      ∃ opened, newKVStore sampleExternals jsonOptions changedStore.disk = .ok opened ∧
        opened.memory.contents = changedStore.memory.contents :=
  ⟨by decide +kernel, by decide +kernel,
    sessions_recover sampleExternals sampleJson_lawful changedFormat (by decide +kernel)
      changedStore changedStore_reached jsonOptions (by decide) rfl rfl⟩

/-- A binary session with a snapshot, then a JSON one with a snapshot. -/
def staleFormat : List StoreOp :=
  [.reopen binaryOptions, .set (ascii "a") [1] 0 0 none,
    .snapshot 0 0 (listedOrder EntryPtr) none, .reopen jsonOptions,
    .set (ascii "b") [2] 0 0 none, .snapshot 0 0 (listedOrder EntryPtr) none]

/-- The store after those sessions. -/
def staleStore : Store :=
  ((writeMachine sampleExternals).run (Store.unopened {}) staleFormat).getD
    (Store.unopened {})

/-- The map that a load of a directory gives, if it succeeds. -/
def openedContents (env : Externals) (opts : Options) (disk : Disk) (key : Bytes) :
    Option Entry :=
  match newKVStore env opts disk with
  | .ok opened => opened.memory.contents key
  | .error _ => none

/-- All calls of the two sessions succeed and the memory holds `b`, but the
directory opens without it: the old binary snapshot is found first, and the log
is empty. -/
theorem sessions_lose_snapshot :
    ((writeMachine sampleExternals).run (Store.unopened {}) staleFormat).isSome ∧
      (writeMachine sampleExternals).Meets SessionCall (Store.unopened {}) staleFormat ∧
      staleStore.memory.contents (ascii "b") = some sampleSecond ∧
      openedContents sampleExternals binaryOptions staleStore.disk (ascii "a") =
        some sampleFirst ∧
      openedContents sampleExternals binaryOptions staleStore.disk (ascii "b") = none := by
  refine ⟨?_, ?_, ?_, ?_, ?_⟩ <;> decide +kernel

end Plumego.KvEngine
