/-
Module: Plumego.Proofs.KvStoreCalls
Purpose: What each call of the embedded key-value store can do to the map and
  to the state file, and which failing calls leave both as they were.
Trusted boundary: none
Main exports: Shrinks, SetDone, set_outcome, DeleteDone, delete_outcome,
  FailsAfterRename, errors_atomic_iff
-/
import Plumego.KvStore.Store

namespace Plumego.KvStore

open Go Lib

/-! ## Eviction -/

/-- What pruning and eviction do to a store: they drop entries and read the
clock. -/
structure Shrinks (store next : Store) : Prop where
  opts : next.opts = store.opts
  file : next.file = store.file
  closed : next.closed = store.closed
  readings : store.readings ≤ next.readings
  kept : ∀ {key : Bytes} {item : Entry}, next.data.lookup key = some item →
    store.data.lookup key = some item

namespace Shrinks

variable {store middle next : Store}

theorem refl (store : Store) : Shrinks store store :=
  ⟨rfl, rfl, rfl, Nat.le_refl _, fun found => found⟩

theorem trans (first : Shrinks store middle) (second : Shrinks middle next) :
    Shrinks store next where
  opts := second.opts.trans first.opts
  file := second.file.trans first.file
  closed := second.closed.trans first.closed
  readings := Nat.le_trans first.readings second.readings
  kept := fun found => first.kept (second.kept found)

theorem tick (store : Store) : Shrinks store store.tick :=
  ⟨rfl, rfl, rfl, Nat.le_succ _, fun found => found⟩

end Shrinks

/-- Visiting entries to delete them only drops entries. -/
theorem lookup_of_pruning {visited : List (Bytes × Entry)} {expired : Entry → Bool} {data : Data}
    {key : Bytes} {item : Entry}
    (found : (visited.foldl (fun kept pair =>
      if expired pair.2 then kept.erase pair.1 else kept) data).lookup key = some item) :
    data.lookup key = some item := by
  induction visited generalizing data with
  | nil => exact found
  | cons pair rest ih =>
    rw [List.foldl_cons] at found
    have earlier := ih found
    split at earlier
    · exact lookup_of_erase earlier
    · exact earlier

/-- Pruning only drops entries. -/
theorem lookup_of_pruneExpired {data : Data} {now : Time} {key : Bytes} {item : Entry}
    (found : (data.pruneExpired now).lookup key = some item) :
    data.lookup key = some item := by
  rw [Data.pruneExpired] at found
  exact @lookup_of_pruning (pairs data) (fun item => item.isExpired now) data key item found

theorem overCapacity_shrinks (clock : Nat → Time) (store : Store) :
    Shrinks store (store.overCapacity clock).1 := by
  rw [Store.overCapacity]
  split
  · exact Shrinks.refl store
  · exact Shrinks.tick store

theorem evictLoop_shrinks (clock : Nat → Time) (order : MapOrder Entry) (fuel : Nat)
    (store : Store) : Shrinks store (Store.evictLoop clock order fuel store) := by
  induction fuel generalizing store with
  | zero => exact Shrinks.refl store
  | succ fuel ih =>
    have checkedShrinks := overCapacity_shrinks clock store
    rw [Store.evictLoop]
    generalize store.overCapacity clock = result at checkedShrinks ⊢
    obtain ⟨checked, isOver⟩ := result
    cases isOver with
    | false => exact checkedShrinks
    | true =>
      dsimp only
      split
      · exact checkedShrinks
      · have erased : Shrinks checked
            { checked with data := checked.data.erase (checked.data.oldestKey order) } :=
          ⟨rfl, rfl, rfl, Nat.le_refl _, lookup_of_erase⟩
        exact (checkedShrinks.trans erased).trans (ih _)

theorem evictIfNeeded_shrinks (clock : Nat → Time) (order : MapOrder Entry) (store : Store) :
    Shrinks store (store.evictIfNeeded clock order) := by
  have pruned : Shrinks store
      { store.tick with data := store.data.pruneExpired (store.now clock) } :=
    ⟨rfl, rfl, rfl, Nat.le_succ _, lookup_of_pruneExpired⟩
  exact pruned.trans (evictLoop_shrinks clock order _ _)

/-! ## Writes -/

/-- The directory cannot be opened or synced once the new state file is in
place. -/
def FailsAfterRename : Option Fault → Prop
  | some (.openDir _) => True
  | some (.syncDir failure) => isUnsupportedDirSync failure = false
  | some (.createTemp _) => False
  | some (.write _) => False
  | some (.sync _) => False
  | some (.close _) => False
  | some (.rename _) => False
  | none => False

/-- A failing write has put the map back; the state file is the old one unless
the fault came behind the rename. -/
structure RolledBack (store : Store) (fault : Option Fault) (next : Store) : Prop where
  opts : next.opts = store.opts
  closed : next.closed = store.closed
  data : next.data = store.data
  readings : store.readings ≤ next.readings
  file : ¬ FailsAfterRename fault → next.file = store.file

theorem persistState_failed {codec : StateCodec} {data : Data} {file next : Option Bytes}
    {fault : Option Fault} {failure : GoError}
    (failed : Store.persistState codec data file fault = (next, some failure))
    (early : ¬ FailsAfterRename fault) : next = file := by
  rw [Store.persistState] at failed
  cases encoded : codec.marshal data with
  | error reason =>
    rw [encoded] at failed
    exact (Prod.mk.inj failed).1.symm
  | ok raw =>
    rw [encoded] at failed
    cases fault with
    | none => cases (Prod.mk.inj failed).2
    | some fault =>
      cases fault with
      | openDir reason => exact absurd trivial early
      | syncDir reason =>
        have unsupported : isUnsupportedDirSync reason = true := by
          simpa [FailsAfterRename] using early
        simp [unsupported] at failed
      | _ => exact (Prod.mk.inj failed).1.symm

/-- Behind the rename the new state is on disk although the call fails. -/
theorem persistState_afterRename {codec : StateCodec} {data : Data} {file : Option Bytes}
    {fault : Option Fault} {raw : Bytes} (encoded : codec.marshal data = .ok raw)
    (late : FailsAfterRename fault) :
    ∃ failure, Store.persistState codec data file fault = (some raw, some failure) := by
  rw [Store.persistState, encoded]
  cases fault with
  | none => cases late
  | some fault =>
    cases fault with
    | openDir reason => exact ⟨_, rfl⟩
    | syncDir reason =>
      have supported : isUnsupportedDirSync reason = false := late
      exact ⟨.wrapf "sync state dir: %w" [] reason, by simp [supported]⟩
    | _ => cases late

theorem commit_failed {codec : StateCodec} {store failed : Store} {before : Data}
    {check : Option GoError} {fault : Option Fault} {failure : GoError}
    (failedEq : store.commit codec before check fault = (failed, some failure)) :
    RolledBack { store with data := before } fault failed := by
  cases check with
  | some reason =>
    rw [Store.commit] at failedEq
    have stateEq := (Prod.mk.inj failedEq).1
    subst stateEq
    exact ⟨rfl, rfl, rfl, Nat.le_refl _, fun _ => rfl⟩
  | none =>
    rw [Store.commit] at failedEq
    generalize persisted : Store.persistState codec store.data store.file fault = result
      at failedEq
    obtain ⟨file, outcome⟩ := result
    cases outcome with
    | none => cases (Prod.mk.inj failedEq).2
    | some reason =>
      have stateEq := (Prod.mk.inj failedEq).1
      subst stateEq
      exact ⟨rfl, rfl, rfl, Nat.le_refl _, fun early => persistState_failed persisted early⟩

theorem commit_done {codec : StateCodec} {store done : Store} {before : Data}
    {check : Option GoError} {fault : Option Fault}
    (doneEq : store.commit codec before check fault = (done, none)) :
    ∃ file, done = { store with file := file } := by
  cases check with
  | some reason =>
    rw [Store.commit] at doneEq
    cases (Prod.mk.inj doneEq).2
  | none =>
    rw [Store.commit] at doneEq
    generalize Store.persistState codec store.data store.file fault = result at doneEq
    obtain ⟨file, outcome⟩ := result
    cases outcome with
    | none => exact ⟨file, (Prod.mk.inj doneEq).1.symm⟩
    | some reason => cases (Prod.mk.inj doneEq).2

/-- What a successful set leaves: entries of other keys at most as before, and
under the key, unless it was evicted at once, the new value with an expiry
counted from a reading of the clock during the call. -/
structure SetDone (clock : Nat → Time) (store : Store) (key value : Bytes) (ttl : Int)
    (next : Store) : Prop where
  opts : next.opts = store.opts
  closed : next.closed = store.closed
  readings : store.readings ≤ next.readings
  others : ∀ {other : Bytes} {item : Entry}, other ≠ key →
    next.data.lookup other = some item → store.data.lookup other = some item
  stored : ∀ {item : Entry}, next.data.lookup key = some item →
    item.value = value ∧
      ∃ reading, store.readings ≤ reading ∧
        item.expireAt = if 0 < ttl then clock reading + ttl else zeroTime

/-- Reading the clock after a finished set changes nothing of it. -/
theorem SetDone.tick {clock : Nat → Time} {store next : Store} {key value : Bytes} {ttl : Int}
    (done : SetDone clock store key value ttl next) :
    SetDone clock store key value ttl next.tick :=
  ⟨done.opts, done.closed, Nat.le_succ_of_le done.readings, done.others, done.stored⟩

theorem refresh_done {clock : Nat → Time} {store persisted : Store} {key value : Bytes}
    {ttl : Int} (done : SetDone clock store key value ttl persisted)
    (positive : ∀ item, persisted.data.lookup key = some item → ¬ isZero item.expireAt →
      0 < ttl) (expireAt : Time)
    (current : ∀ item, persisted.data.lookup key = some item → item.expireAt = expireAt) :
    SetDone clock store key value ttl (persisted.refresh clock key ttl expireAt) := by
  rw [Store.refresh]
  split
  · exact done
  · rename_i nonzero
    split
    · split
      · rename_i item found
        have ttlPositive : 0 < ttl := positive item found (by rwa [current item found])
        constructor
        · exact done.opts
        · exact done.closed
        · exact Nat.le_succ_of_le done.readings
        · intro other otherItem different otherFound
          change (persisted.data.insert key _).lookup other = _ at otherFound
          rw [AList.lookup_insert_ne different] at otherFound
          exact done.others different otherFound
        · intro newItem newFound
          change (persisted.data.insert key _).lookup key = _ at newFound
          rw [AList.lookup_insert, Option.some.injEq] at newFound
          subst newFound
          refine ⟨(done.stored found).1, persisted.readings, done.readings, ?_⟩
          rw [if_pos ttlPositive]
          rfl
      · exact done.tick
    · exact done.tick

/-- A set is refused or fails with the map put back, or it is done. -/
theorem set_outcome (codec : StateCodec) (clock : Nat → Time) (store : Store) (ctx : Context)
    (key value : Bytes) (ttl : Int) (order : MapOrder Entry) (fault : Option Fault) :
    (∃ failure, (store.setContext codec clock ctx key value ttl order fault).2 = some failure ∧
      RolledBack store fault (store.setContext codec clock ctx key value ttl order fault).1) ∨
    ((store.setContext codec clock ctx key value ttl order fault).2 = none ∧
      SetDone clock store key value ttl
        (store.setContext codec clock ctx key value ttl order fault).1) := by
  rw [Store.setContext]
  cases store.precheck ctx key with
  | some failure =>
    exact Or.inl ⟨failure, rfl, rfl, rfl, rfl, Nat.le_refl _, fun _ => rfl⟩
  | none =>
    dsimp only
    split
    · exact Or.inl ⟨_, rfl, rfl, rfl, rfl, Nat.le_succ _, fun _ => rfl⟩
    · set entry := Store.newEntry key value ttl (store.now clock) with entryEq
      have shrinks := evictIfNeeded_shrinks clock order
        { store.tick with data := store.data.insert key entry }
      generalize Store.evictIfNeeded clock
        { store.tick with data := store.data.insert key entry } order = written
        at shrinks ⊢
      have ticked : store.readings ≤ written.readings :=
        Nat.le_of_succ_le shrinks.readings
      generalize committed : written.commit codec store.data (ctx 2) fault = result
      obtain ⟨next, outcome⟩ := result
      cases outcome with
      | some failure =>
        have rolledBack := commit_failed committed
        refine Or.inl ⟨failure, rfl, ?_⟩
        exact
          ⟨rolledBack.opts.trans shrinks.opts, rolledBack.closed.trans shrinks.closed,
            rolledBack.data, Nat.le_trans ticked rolledBack.readings,
            fun early => (rolledBack.file early).trans shrinks.file⟩
      | none =>
        obtain ⟨file, rfl⟩ := commit_done committed
        have current : ∀ item, written.data.lookup key = some item → item = entry := by
          intro item found
          have inserted : (store.data.insert key entry).lookup key = some item :=
            shrinks.kept found
          rw [AList.lookup_insert, Option.some.injEq] at inserted
          exact inserted.symm
        refine Or.inr ⟨rfl, refresh_done ?_ ?_ entry.expireAt ?_⟩
        · constructor
          · exact shrinks.opts
          · exact shrinks.closed
          · exact ticked
          · intro other item different found
            have inserted : (store.data.insert key entry).lookup other = some item :=
              shrinks.kept found
            rwa [AList.lookup_insert_ne different] at inserted
          · intro item found
            rw [current item found]
            exact ⟨rfl, store.readings, Nat.le_refl _, rfl⟩
        · intro item found nonzero
          rw [current item found] at nonzero
          by_contra notPositive
          apply nonzero
          rw [entryEq, Store.newEntry, if_neg notPositive]
          rfl
        · intro item found
          rw [current item found]

/-- What a successful deletion leaves. -/
structure DeleteDone (store : Store) (key : Bytes) (next : Store) : Prop where
  opts : next.opts = store.opts
  closed : next.closed = store.closed
  readings : next.readings = store.readings
  data : next.data = store.data.erase key

/-- A deletion is refused or fails with the map put back, or it is done. -/
theorem delete_outcome (codec : StateCodec) (store : Store) (ctx : Context) (key : Bytes)
    (fault : Option Fault) :
    (∃ failure, (store.deleteContext codec ctx key fault).2 = some failure ∧
      RolledBack store fault (store.deleteContext codec ctx key fault).1) ∨
    ((store.deleteContext codec ctx key fault).2 = none ∧
      DeleteDone store key (store.deleteContext codec ctx key fault).1) := by
  rw [Store.deleteContext]
  cases store.precheck ctx key with
  | some failure =>
    exact Or.inl ⟨failure, rfl, rfl, rfl, rfl, Nat.le_refl _, fun _ => rfl⟩
  | none =>
    cases store.data.lookup key with
    | none => exact Or.inl ⟨errKeyNotFound, rfl, rfl, rfl, rfl, Nat.le_refl _, fun _ => rfl⟩
    | some item =>
      dsimp only
      generalize committed : Store.commit codec
        { store with data := store.data.erase key } store.data (ctx 2) fault = result
      obtain ⟨next, outcome⟩ := result
      cases outcome with
      | some failure =>
        have rolledBack := commit_failed committed
        exact Or.inl ⟨failure, rfl, rolledBack.opts, rolledBack.closed, rolledBack.data,
          rolledBack.readings, rolledBack.file⟩
      | none =>
        obtain ⟨file, rfl⟩ := commit_done committed
        exact Or.inr ⟨rfl, rfl, rfl, rfl, rfl⟩

/-! ## Failing calls -/

/-- The calls that write. -/
def Call.Writes : Call → Prop
  | .set _ _ _ _ _ _ => True
  | .delete _ _ _ => True
  | .get _ _ => False
  | .close => False
  | .reopen _ _ => False

/-- The fault a writing call meets. -/
def Call.fault : Call → Option Fault
  | .set _ _ _ _ _ fault => fault
  | .delete _ _ fault => fault
  | .get _ _ => none
  | .close => none
  | .reopen _ _ => none

/-- A call left the map in memory and the map that loading the state file
gives as they were. -/
def Unchanged (codec : StateCodec) (store next : Store) : Prop :=
  next.data = store.data ∧
    ∀ order, load codec next.file order = load codec store.file order

/-- A failing write before the rename leaves both maps as they were. -/
theorem apply_failed {codec : StateCodec} {clock : Nat → Time} {store : Store} {call : Call}
    {failure : GoError} (writes : call.Writes) (early : ¬ FailsAfterRename call.fault)
    (failed : (store.apply codec clock call).2 = some failure) :
    Unchanged codec store (store.apply codec clock call).1 := by
  have unchanged : ∀ {next : Store}, RolledBack store call.fault next →
      Unchanged codec store next := by
    intro next rolledBack
    refine ⟨rolledBack.data, fun order => ?_⟩
    rw [rolledBack.file early]
  cases call with
  | set ctx key value ttl order fault =>
    rcases set_outcome codec clock store ctx key value ttl order fault with
      ⟨reason, _, rolledBack⟩ | ⟨noError, _⟩
    · exact unchanged rolledBack
    · rw [Store.apply, noError] at failed
      cases failed
  | delete ctx key fault =>
    rcases delete_outcome codec store ctx key fault with
      ⟨reason, _, rolledBack⟩ | ⟨noError, _⟩
    · exact unchanged rolledBack
    · rw [Store.apply, noError] at failed
      cases failed
  | get ctx key | close | reopen opts order => cases writes

/-- A set that fails behind the rename has replaced the state file. -/
theorem setContext_afterRename {codec : StateCodec} {clock : Nat → Time} {store : Store}
    {key value : Bytes} {ttl : Int} {order : MapOrder Entry} {fault : Option Fault}
    {entry : Entry} {written : Store} {raw : Bytes}
    (passes : store.precheck background key = none)
    (entryEq : Store.newEntry key value ttl (store.now clock) = entry)
    (small : ¬ store.opts.maxMemoryBytes < entry.size)
    (writtenEq : Store.evictIfNeeded clock
      { store.tick with data := store.data.insert key entry } order = written)
    (encoded : codec.marshal written.data = .ok raw) (late : FailsAfterRename fault) :
    ∃ failure,
      (store.setContext codec clock background key value ttl order fault).2 = some failure ∧
      (store.setContext codec clock background key value ttl order fault).1.file =
        some raw := by
  obtain ⟨failure, persisted⟩ := persistState_afterRename encoded late
  rw [Store.setContext, passes]
  dsimp only
  rw [entryEq, if_neg small, writtenEq, background, Store.commit, persisted]
  exact ⟨failure, rfl, rfl⟩

/-- The state with one entry that the example run writes. -/
def sampleEntry : Entry where
  value := ascii "v"
  updatedAt := 0
  size := 66

/-- The file `json.Marshal` makes of it. -/
def sampleFile : Bytes := ascii
  ("\x7b\"entries\":\x7b\"a\":\x7b\"value\":\"dg==\"," ++
    "\"expire_at\":\"0001-01-01T00:00:00Z\"," ++
    "\"updated_at\":\"1970-01-01T00:00:00Z\",\"size\":66\x7d\x7d\x7d")

/-- `encoding/json` on that state and that file. -/
def sampleCodec : StateCodec where
  marshal := fun data =>
    if data = (∅ : Data).insert (ascii "a") sampleEntry then .ok sampleFile
    else .error (.new "another state")
  unmarshal := fun raw =>
    if raw = sampleFile then .ok ((∅ : Data).insert (ascii "a") sampleEntry)
    else .error (.new "another file")

/-- A store opened on an empty directory, at the epoch. -/
def sampleStore : Store :=
  Store.after sampleCodec (fun _ => 0) none
    [.reopen { dataDir := ascii "data" } (listedOrder Entry)]

/-- The first set on that store. -/
def sampleSet (fault : Option Fault) : Call :=
  .set background (ascii "a") (ascii "v") 0 (listedOrder Entry) fault

/-- The directory sync fails behind the rename: the set returns an error and the
map in memory is empty again, while the state file holds the new entry. -/
theorem set_error_persists :
    let failed := sampleStore.apply sampleCodec (fun _ => 0)
      (sampleSet (some (.syncDir (.new "input/output error"))))
    failed.2 = some (.wrapf "sync state dir: %w" [] (.new "input/output error")) ∧
      failed.1.data = ∅ ∧
      load sampleCodec sampleStore.file (listedOrder Entry) = .ok ∅ ∧
      load sampleCodec failed.1.file (listedOrder Entry) =
        .ok ((∅ : Data).insert (ascii "a") sampleEntry) := by
  decide +kernel

/-- Failing sets and deletions leave the map in memory and the state file's map
as they were in every reachable state exactly for the faults that do not come
behind the rename. -/
theorem errors_atomic_iff (fault : Option Fault) :
    (∀ (codec : StateCodec) (clock : Nat → Time) (file : Option Bytes) (calls : List Call)
      (call : Call) (failure : GoError), call.Writes → call.fault = fault →
      ((Store.after codec clock file calls).apply codec clock call).2 = some failure →
      Unchanged codec (Store.after codec clock file calls)
        ((Store.after codec clock file calls).apply codec clock call).1) ↔
      ¬ FailsAfterRename fault := by
  constructor
  · intro atomic late
    have entryEq : Store.newEntry (ascii "a") (ascii "v") 0 (sampleStore.now fun _ => 0) =
        sampleEntry := by
      decide +kernel
    have encoded : sampleCodec.marshal (Store.evictIfNeeded (fun _ => 0)
        { sampleStore.tick with data := sampleStore.data.insert (ascii "a") sampleEntry }
        (listedOrder Entry)).data = .ok sampleFile := by
      decide +kernel
    obtain ⟨failure, failed, replaced⟩ := setContext_afterRename
      (by decide +kernel) entryEq (by decide +kernel) rfl encoded late
    have unchanged := atomic sampleCodec (fun _ => 0) none
      [.reopen { dataDir := ascii "data" } (listedOrder Entry)] (sampleSet fault) failure
      trivial rfl failed
    have sameLoad : load sampleCodec (some sampleFile) (listedOrder Entry) =
        load sampleCodec sampleStore.file (listedOrder Entry) := by
      rw [← replaced]
      exact unchanged.2 (listedOrder Entry)
    exact absurd sameLoad (by decide +kernel)
  · intro early codec clock file calls call failure writes faultEq failed
    exact apply_failed writes (faultEq ▸ early) failed

end Plumego.KvStore
