/-
Module: Plumego.Proofs.TaskDedupe
Purpose: Which tasks suppress each other: when an insertion is refused for the
  dedupe key of another task, and when a worker takes a task for completed
  because another one was.
Trusted boundary: none
Main exports: suppresses_iff, completesFor_iff, isolated_iff_not_ambiguous, tenants_suppress
-/
import Plumego.Mq.Worker
import Plumego.Proofs.TaskMoves

namespace Plumego.Mq

open Plumego.Go
open Plumego.Lib

/-- Two tasks of one tenant with one dedupe key. -/
def SameScope (first second : Task) : Prop :=
  first.tenantID = second.tenantID ∧ first.dedupeKey = second.dedupeKey

/-- Some run inserts the first task, and later refuses the second one, whose ID
is new, because of the dedupe entry of the first. -/
def Suppresses (first second : Task) : Prop :=
  ∃ earlier between before after,
    machine.run {} earlier = some before ∧ (before.insert first).2 = none ∧
      machine.run (before.insert first).1 between = some after ∧
      after.tasks.lookup second.id = none ∧
      after.dedupe.lookup (dedupeKey second.tenantID second.dedupeKey) = some first.id ∧
      (after.insert second).2 = some errDuplicateTask

/-- Some worker with the default key function completes the first task, at any of
its attempts, and takes the second one for completed then but not before. -/
def CompletesFor (marks : Deduper) (first second : Task) : Prop :=
  ∃ (config : WorkerConfig) (state : WorkerState) (around later : Surroundings)
    (marked : List Bytes) (attempts : Int64),
    config.dedupeKeyFunc = none ∧ state.deduper = some { marks with marked := marked } ∧
      config.completed state second later = false ∧
      (config.handleTask state { first with attempts := attempts } around).2 = .completed ∧
      config.completed (config.handleTask state { first with attempts := attempts } around).1
        second later = true

/-- Neither the store nor the worker mixes up the two tasks unless they have the
same tenant and the same dedupe key. -/
def Isolated (first second : Task) : Prop :=
  (Suppresses first second → SameScope first second) ∧
    (CompletesFor exactDeduper first second → SameScope first second)

/-- The second tenant is the first one, a colon and the beginning of the first
dedupe key, whose rest after a colon is the second dedupe key. -/
def Splits (first second : Task) : Prop :=
  ∃ middle, second.tenantID = first.tenantID ++ ascii ":" ++ middle ∧
    first.dedupeKey = middle ++ ascii ":" ++ second.dedupeKey

/-- The first task has no tenant, and its dedupe key is the tenant and the key of
the second one. -/
def Unscoped (first second : Task) : Prop :=
  first.tenantID = [] ∧ second.tenantID ≠ [] ∧
    first.dedupeKey = second.tenantID ++ ascii ":" ++ second.dedupeKey

/-- The identifiers of the two tasks can be read in two ways. -/
def Ambiguous (first second : Task) : Prop :=
  (first.id ≠ second.id ∨ first.tenantID ≠ [] ∧ second.tenantID ≠ []) ∧
      (Splits first second ∨ Splits second first) ∨
    Unscoped first second ∨ Unscoped second first

/-! ## The two encodings -/

/-- Joined texts are equal if both parts are, or the separator is read at two
places. -/
theorem joined_eq_iff {left right leftKey rightKey : Bytes} :
    left ++ ascii ":" ++ leftKey = right ++ ascii ":" ++ rightKey ↔
      left = right ∧ leftKey = rightKey ∨
        (∃ middle, right = left ++ ascii ":" ++ middle ∧
          leftKey = middle ++ ascii ":" ++ rightKey) ∨
        ∃ middle, left = right ++ ascii ":" ++ middle ∧
          rightKey = middle ++ ascii ":" ++ leftKey := by
  have colon : ascii ":" = [0x3A] := rfl
  simp only [colon, List.append_assoc, List.singleton_append]
  constructor
  · intro joined
    rcases List.append_eq_append_iff.mp joined with
      ⟨rest, rightEq, keyEq⟩ | ⟨rest, leftEq, keyEq⟩
    · cases rest with
      | nil =>
        rw [List.append_nil] at rightEq
        rw [List.nil_append, List.cons.injEq] at keyEq
        exact Or.inl ⟨rightEq.symm, keyEq.2⟩
      | cons first middle =>
        rw [List.cons_append, List.cons.injEq] at keyEq
        obtain ⟨rfl, keyEq⟩ := keyEq
        exact Or.inr (Or.inl ⟨middle, rightEq, keyEq⟩)
    · cases rest with
      | nil =>
        rw [List.append_nil] at leftEq
        rw [List.nil_append, List.cons.injEq] at keyEq
        exact Or.inl ⟨leftEq, keyEq.2.symm⟩
      | cons first middle =>
        rw [List.cons_append, List.cons.injEq] at keyEq
        obtain ⟨rfl, keyEq⟩ := keyEq
        exact Or.inr (Or.inr ⟨middle, leftEq, keyEq⟩)
  · rintro (⟨rfl, rfl⟩ | ⟨middle, rfl, rfl⟩ | ⟨middle, rfl, rfl⟩)
    · rfl
    · simp
    · simp

/-- The keys of the store agree for one scope and for split identifiers. -/
theorem dedupeKey_eq_iff {first second : Task} :
    dedupeKey first.tenantID first.dedupeKey = dedupeKey second.tenantID second.dedupeKey ↔
      SameScope first second ∨ Splits first second ∨ Splits second first :=
  joined_eq_iff

/-- The key a worker builds by default from a task with a dedupe key. -/
theorem worker_dedupeKey {config : WorkerConfig} (default : config.dedupeKeyFunc = none)
    {task : Task} (keyed : task.dedupeKey ≠ []) :
    config.dedupeKey task =
      if task.tenantID ≠ [] then dedupeKey task.tenantID task.dedupeKey else task.dedupeKey := by
  simp [WorkerConfig.dedupeKey, default, keyed, Plumego.Mq.dedupeKey]

theorem worker_dedupeKey_ne_nil {config : WorkerConfig} (default : config.dedupeKeyFunc = none)
    {task : Task} (keyed : task.dedupeKey ≠ []) : config.dedupeKey task ≠ [] := by
  rw [worker_dedupeKey default keyed]
  split
  · simp [dedupeKey, keyed]
  · exact keyed

/-- The keys of a worker agree for one scope, for split identifiers of two
tenants, and where one task has no tenant. -/
theorem worker_dedupeKey_eq_iff {config : WorkerConfig} (default : config.dedupeKeyFunc = none)
    {first second : Task} (firstKeyed : first.dedupeKey ≠ []) (secondKeyed : second.dedupeKey ≠ []) :
    config.dedupeKey first = config.dedupeKey second ↔
      SameScope first second ∨
        (first.tenantID ≠ [] ∧ second.tenantID ≠ []) ∧
          (Splits first second ∨ Splits second first) ∨
        Unscoped first second ∨ Unscoped second first := by
  rw [worker_dedupeKey default firstKeyed, worker_dedupeKey default secondKeyed]
  by_cases firstTenant : first.tenantID = []
  · by_cases secondTenant : second.tenantID = []
    · simp [firstTenant, secondTenant, SameScope, Unscoped]
    · simp [firstTenant, secondTenant, SameScope, Unscoped, dedupeKey, eq_comm]
  · by_cases secondTenant : second.tenantID = []
    · simp [firstTenant, secondTenant, SameScope, Unscoped, dedupeKey, eq_comm]
    · have notUnscoped : ¬ Unscoped first second := fun unscoped => firstTenant unscoped.1
      have notUnscoped' : ¬ Unscoped second first := fun unscoped => secondTenant unscoped.1
      rw [if_pos firstTenant, if_pos secondTenant, dedupeKey_eq_iff]
      simp [firstTenant, secondTenant, notUnscoped, notUnscoped']

theorem not_splits_of_sameScope {first second : Task} (same : SameScope first second) :
    ¬ Splits first second := by
  rintro ⟨middle, tenantEq, -⟩
  have lengths := congrArg List.length (same.1.trans tenantEq)
  simp [ascii] at lengths

theorem SameScope.symm {first second : Task} (same : SameScope first second) :
    SameScope second first := ⟨same.1.symm, same.2.symm⟩

/-! ## Insertions -/

/-- No call changes the tenant or the dedupe key of a stored task. -/
theorem sameScope_call {store : MemStore} (keyed : store.Keyed) {id : Bytes} {record : MemRecord}
    (found : store.tasks.lookup id = some record) (call : Call) :
    ∃ next, (store.call call).1.tasks.lookup id = some next ∧
      SameScope record.task next.task := by
  have moved := MemStore.moves keyed id call
  rw [found] at moved
  generalize (store.call call).2 = result at moved
  generalize (store.call call).1.tasks.lookup id = after at moved
  cases moved with
  | untouched => exact ⟨record, rfl, rfl, rfl⟩
  | reserved | expired => exact ⟨_, rfl, rfl, rfl⟩
  | settled onLease =>
    refine ⟨_, rfl, ?_⟩
    cases call <;> cases onLease <;> exact ⟨rfl, rfl⟩
  | replayed => exact ⟨_, rfl, rfl, rfl⟩

/-- Every dedupe entry is the key of the stored task it names. -/
structure DedupeSound (store : MemStore) : Prop where
  keyed : store.Keyed
  entry : ∀ key id, store.dedupe.lookup key = some id →
    ∃ record, store.tasks.lookup id = some record ∧
      key = dedupeKey record.task.tenantID record.task.dedupeKey

/-- Only an insertion makes a dedupe entry. -/
theorem dedupe_call {store : MemStore} {call : Call} (notInsert : ∀ task, call ≠ .insert task) :
    (store.call call).1.dedupe = store.dedupe := by
  cases onLease : call.leaseCall with
  | some lease =>
    rw [MemStore.call_of_leaseCall onLease, MemStore.onLease]
    cases store.tasks.lookup lease.taskID with
    | none => rfl
    | some record =>
      simp only []
      split <;> rfl
  | none =>
    cases call with
    | insert task => exact absurd rfl (notInsert task)
    | reserve opts reading sorting =>
      simp only [MemStore.call, MemStore.reserve]
      split <;> rfl
    | replayDLQ opts reading sorting =>
      simp only [MemStore.call, MemStore.replayDLQ]
      split <;> rfl
    | ack | release | moveToDLQ | extendLease => cases onLease

/-- The dedupe entries after an insertion: those before, and that of the task. -/
theorem dedupe_insert {store : MemStore} {task : Task} {key id : Bytes}
    (found : (store.insert task).1.dedupe.lookup key = some id) :
    store.dedupe.lookup key = some id ∨
      id = task.id ∧ key = dedupeKey task.tenantID task.dedupeKey ∧
        (store.insert task).2 = none := by
  unfold MemStore.insert at *
  split at found
  · exact Or.inl found
  · rename_i absent
    rw [if_neg absent]
    split at found
    · rename_i hasKey
      rw [if_pos hasKey]
      split at found
      · exact Or.inl found
      · rename_i fresh
        rw [if_neg fresh]
        by_cases same : key = dedupeKey task.tenantID task.dedupeKey
        · subst same
          rw [AList.lookup_insert, Option.some.injEq] at found
          exact Or.inr ⟨found.symm, rfl, rfl⟩
        · rw [AList.lookup_insert_ne same] at found
          exact Or.inl found
    · exact Or.inl found

/-- A successful insertion stores the task. -/
theorem lookup_insert_of_ok {store : MemStore} {task : Task}
    (inserted : (store.insert task).2 = none) :
    (store.insert task).1.tasks.lookup task.id = some ⟨task, .queued, [], zeroTime⟩ := by
  unfold MemStore.insert at *
  split at inserted
  · cases inserted
  · rename_i absent
    rw [if_neg absent]
    split at inserted
    · rename_i hasKey
      rw [if_pos hasKey]
      split at inserted
      · cases inserted
      · rename_i fresh
        rw [if_neg fresh, AList.lookup_insert]
    · rename_i noKey
      rw [if_neg noKey, AList.lookup_insert]

theorem DedupeSound.call {store : MemStore} (sound : DedupeSound store) (call : Call) :
    DedupeSound (store.call call).1 := by
  refine ⟨sound.keyed.call call, ?_⟩
  intro key id found
  have kept : store.dedupe.lookup key = some id → ∃ record,
      (store.call call).1.tasks.lookup id = some record ∧
        key = dedupeKey record.task.tenantID record.task.dedupeKey := by
    intro before
    obtain ⟨record, stored, keyEq⟩ := sound.entry key id before
    obtain ⟨next, nextStored, same⟩ := sameScope_call sound.keyed stored call
    exact ⟨next, nextStored, by rw [keyEq, same.1, same.2]⟩
  by_cases isInsert : ∃ task, call = .insert task
  · obtain ⟨task, rfl⟩ := isInsert
    rcases dedupe_insert found with before | ⟨rfl, rfl, inserted⟩
    · exact kept before
    · exact ⟨_, lookup_insert_of_ok inserted, rfl⟩
  · rw [dedupe_call (not_exists.mp isInsert)] at found
    exact kept found

theorem DedupeSound.run {start final : MemStore} (sound : DedupeSound start) {calls : List Call}
    (ran : machine.run start calls = some final) : DedupeSound final := by
  have kept : ∀ (state : MemStore) (call : Call) (next : MemStore) (result : Result) (_ : True),
      DedupeSound state → machine.step state call = some (next, result) → DedupeSound next := by
    intro state call next result _ sound stepEq
    obtain ⟨rfl, -⟩ := Prod.mk.inj (Option.some.inj stepEq)
    exact sound.call call
  exact Machine.run_invariant kept sound (fun _ _ => trivial) ran

theorem dedupeSound_empty : DedupeSound {} where
  keyed := MemStore.keyed_empty
  entry key id found := by cases (AList.lookup_empty key).symm.trans found

/-- A stored task keeps its scope over a run. -/
theorem sameScope_run {start final : MemStore} (keyed : start.Keyed) {id : Bytes}
    {task : Task} (stored : ∃ record, start.tasks.lookup id = some record ∧
      SameScope task record.task) {calls : List Call}
    (ran : machine.run start calls = some final) :
    ∃ record, final.tasks.lookup id = some record ∧ SameScope task record.task := by
  have kept : ∀ (state : MemStore) (call : Call) (next : MemStore) (result : Result) (_ : True),
      (state.Keyed ∧ ∃ record, state.tasks.lookup id = some record ∧ SameScope task record.task) →
        machine.step state call = some (next, result) →
        next.Keyed ∧ ∃ record, next.tasks.lookup id = some record ∧ SameScope task record.task := by
    rintro state call next result _ ⟨keyed, record, found, same⟩ stepEq
    obtain ⟨rfl, -⟩ := Prod.mk.inj (Option.some.inj stepEq)
    obtain ⟨after, afterFound, afterSame⟩ := sameScope_call keyed found call
    exact ⟨keyed.call call, after, afterFound, same.1.trans afterSame.1,
      same.2.trans afterSame.2⟩
  exact (Machine.run_invariant kept ⟨keyed, stored⟩ (fun _ _ => trivial) ran).2

/-- A task suppresses another one exactly if their IDs differ and the store
builds one key from both. -/
theorem suppresses_iff {first second : Task} (firstKeyed : first.dedupeKey ≠ [])
    (secondKeyed : second.dedupeKey ≠ []) :
    Suppresses first second ↔
      first.id ≠ second.id ∧
        dedupeKey first.tenantID first.dedupeKey =
          dedupeKey second.tenantID second.dedupeKey := by
  constructor
  · rintro ⟨earlier, between, before, after, ranEarlier, inserted, ranBetween, newID, entry, -⟩
    have soundBefore := dedupeSound_empty.run ranEarlier
    have soundInserted : DedupeSound (before.insert first).1 := soundBefore.call (.insert first)
    have soundAfter := soundInserted.run ranBetween
    obtain ⟨record, found, same⟩ := sameScope_run soundInserted.keyed
      ⟨_, lookup_insert_of_ok inserted, rfl, rfl⟩ ranBetween
    obtain ⟨named, namedFound, keyEq⟩ := soundAfter.entry _ _ entry
    obtain rfl : record = named := Option.some.inj (found.symm.trans namedFound)
    refine ⟨?_, ?_⟩
    · intro sameID
      rw [← sameID, found] at newID
      cases newID
    · rw [keyEq, same.1, same.2]
  · rintro ⟨differentID, sameKey⟩
    have inserted : MemStore.insert {} first =
        ({ tasks := AList.insert first.id ⟨first, .queued, [], zeroTime⟩ ∅
           dedupe := AList.insert (dedupeKey first.tenantID first.dedupeKey) first.id ∅ },
          none) := by
      simp [MemStore.insert, firstKeyed]
    have newID : (MemStore.insert {} first).1.tasks.lookup second.id = none := by
      rw [inserted, AList.lookup_insert_ne (Ne.symm differentID), AList.lookup_empty]
    have entry : (MemStore.insert {} first).1.dedupe.lookup
        (dedupeKey second.tenantID second.dedupeKey) = some first.id := by
      rw [inserted, ← sameKey, AList.lookup_insert]
    refine ⟨[], [], {}, (MemStore.insert {} first).1, rfl, by rw [inserted], rfl, newID, entry, ?_⟩
    simp [MemStore.insert.eq_def _ second, newID, entry, secondKeyed]

/-! ## Completions -/

/-- A completed task is marked unless marking fails. -/
theorem deduper_of_completed {config : WorkerConfig} {state : WorkerState} {task : Task}
    {around : Surroundings} (completed : (config.handleTask state task around).2 = .completed) :
    (config.handleTask state task around).1.deduper =
      if config.dedupeKey task = [] ∨ around.markFails then state.deduper
      else state.deduper.map (·.markCompleted (config.dedupeKey task)) := by
  unfold WorkerConfig.handleTask at *
  split at completed
  · cases completed
  · rename_i notExhausted
    rw [if_neg notExhausted]
    split at completed
    · cases completed
    · rename_i notCompleted
      rw [if_neg notCompleted]
      cases handlerEq : around.handler with
      | none => simp [handlerEq] at completed
      | some result =>
        simp only [handlerEq] at completed ⊢
        cases loopEq : config.extendLeaseLoop task around.ticks state.store with
        | mk store lost =>
          simp only [loopEq] at completed ⊢
          cases lost with
          | true => cases completed
          | false =>
            cases result with
            | some reason => cases completed
            | none =>
              simp only [WorkerConfig.markDeduped]
              split <;> rfl

/-- The default key does not depend on the attempts. -/
theorem worker_dedupeKey_attempts {config : WorkerConfig} (default : config.dedupeKeyFunc = none)
    (task : Task) (attempts : Int64) :
    config.dedupeKey { task with attempts := attempts } = config.dedupeKey task := by
  simp [WorkerConfig.dedupeKey, default]

theorem completed_iff {config : WorkerConfig} {state : WorkerState} {deduper : Deduper}
    (hasDeduper : state.deduper = some deduper) {task : Task} (around : Surroundings)
    (hasKey : config.dedupeKey task ≠ []) :
    config.completed state task around = true ↔
      around.checkFails = false ∧
        ∃ entry, deduper.entry (config.dedupeKey task) = some entry ∧ entry ∈ deduper.marked := by
  cases entryEq : deduper.entry (config.dedupeKey task) with
  | none | some entry =>
    simp [WorkerConfig.completed, hasDeduper, hasKey, Deduper.isCompleted, entryEq]

/-- The completion of one task satisfies the check of another exactly if the
deduper builds one entry from the keys of both. -/
theorem completesFor_iff (marks : Deduper) {first second : Task}
    (firstKeyed : first.dedupeKey ≠ []) (secondKeyed : second.dedupeKey ≠ []) :
    CompletesFor marks first second ↔
      ∃ config : WorkerConfig, config.dedupeKeyFunc = none ∧
        ∃ entry, marks.entry (config.dedupeKey first) = some entry ∧
          marks.entry (config.dedupeKey second) = some entry := by
  constructor
  · rintro ⟨config, state, around, later, marked, attempts, default, hasDeduper, notBefore,
      completed, after⟩
    refine ⟨config, default, ?_⟩
    have hasKey := worker_dedupeKey_ne_nil default secondKeyed
    have deduperAfter := deduper_of_completed completed
    rw [worker_dedupeKey_attempts default] at deduperAfter
    split at deduperAfter
    · rw [hasDeduper] at deduperAfter
      rw [completed_iff deduperAfter later hasKey, ← completed_iff hasDeduper later hasKey,
        notBefore] at after
      cases after
    · rw [hasDeduper, Option.map_some] at deduperAfter
      obtain ⟨works, entry, entryEq, isMarked⟩ := (completed_iff deduperAfter later hasKey).mp after
      have entryBefore : marks.entry (config.dedupeKey second) = some entry := entryEq
      have unmarked : entry ∉ marked := by
        intro member
        have before := (completed_iff hasDeduper later hasKey).mpr
          ⟨works, entry, entryBefore, member⟩
        rw [notBefore] at before
        cases before
      cases firstEntry : marks.entry (config.dedupeKey first) with
      | none =>
        simp [Deduper.markCompleted, firstEntry] at isMarked
        exact absurd isMarked unmarked
      | some other =>
        simp [Deduper.markCompleted, firstEntry] at isMarked
        rcases isMarked with rfl | isMarked
        · exact ⟨entry, rfl, entryBefore⟩
        · exact absurd isMarked unmarked
  · rintro ⟨config, default, entry, firstEntry, secondEntry⟩
    have firstKey := worker_dedupeKey_ne_nil default firstKeyed
    have hasKey := worker_dedupeKey_ne_nil default secondKeyed
    let state : WorkerState := ⟨{}, some { marks with marked := [] }⟩
    let around : Surroundings := { handler := some none, now := 0 }
    have notMarked : ∀ task, config.dedupeKey task ≠ [] →
        config.completed state task around = false := by
      intro task taskKey
      rw [← Bool.not_eq_true, completed_iff rfl around taskKey]
      rintro ⟨-, entry, -, member⟩
      cases member
    have completed : (config.handleTask state { first with attempts := 0 } around).2 =
        .completed := by
      have unmarked := notMarked { first with attempts := 0 }
        (by rwa [worker_dedupeKey_attempts default])
      have notExhausted : ¬ (0 < first.maxAttempts ∧ first.maxAttempts < (0 : Int64)) :=
        fun bounds => Int64.lt_irrefl (Int64.lt_trans bounds.1 bounds.2)
      unfold WorkerConfig.handleTask
      rw [if_neg notExhausted, if_neg (by simp [unmarked])]
      rfl
    have deduperAfter := deduper_of_completed completed
    rw [worker_dedupeKey_attempts default, if_neg (by simp [firstKey, around])] at deduperAfter
    refine ⟨config, state, around, around, [], 0, default, rfl, notMarked second hasKey, completed,
      (completed_iff deduperAfter around hasKey).mpr ⟨rfl, entry, secondEntry, ?_⟩⟩
    simp [Deduper.markCompleted, firstEntry]

/-- With a deduper that keeps keys as they are, the keys must be equal. -/
theorem completesFor_exact_iff {first second : Task} (firstKeyed : first.dedupeKey ≠ [])
    (secondKeyed : second.dedupeKey ≠ []) :
    CompletesFor exactDeduper first second ↔
      SameScope first second ∨
        (first.tenantID ≠ [] ∧ second.tenantID ≠ []) ∧
          (Splits first second ∨ Splits second first) ∨
        Unscoped first second ∨ Unscoped second first := by
  rw [completesFor_iff exactDeduper firstKeyed secondKeyed]
  constructor
  · rintro ⟨config, default, entry, firstEntry, secondEntry⟩
    rw [← worker_dedupeKey_eq_iff default firstKeyed secondKeyed]
    exact Option.some.inj (firstEntry.trans secondEntry.symm)
  · intro sameKey
    have default : ({ consumerID := [] } : WorkerConfig).dedupeKeyFunc = none := rfl
    rw [← worker_dedupeKey_eq_iff default firstKeyed secondKeyed] at sameKey
    exact ⟨_, default, _, rfl, congrArg some sameKey.symm⟩

/-! ## Isolation -/

/-- Two tasks with dedupe keys are isolated from each other exactly if their
identifiers cannot be read in two ways. -/
theorem isolated_iff_not_ambiguous {first second : Task} (firstKeyed : first.dedupeKey ≠ [])
    (secondKeyed : second.dedupeKey ≠ []) :
    Isolated first second ↔ ¬ Ambiguous first second := by
  rw [Isolated, suppresses_iff firstKeyed secondKeyed, dedupeKey_eq_iff,
    completesFor_exact_iff firstKeyed secondKeyed]
  constructor
  · rintro ⟨suppressed, completedFor⟩ ambiguous
    have notSplit : SameScope first second → ¬ (Splits first second ∨ Splits second first) := by
      rintro same (splits | splits)
      · exact not_splits_of_sameScope same splits
      · exact not_splits_of_sameScope same.symm splits
    rcases ambiguous with ⟨differentID | tenants, splits⟩ | unscoped | unscoped
    · exact notSplit (suppressed ⟨differentID, Or.inr splits⟩) splits
    · exact notSplit (completedFor (Or.inr (Or.inl ⟨tenants, splits⟩))) splits
    · have same := completedFor (Or.inr (Or.inr (Or.inl unscoped)))
      exact unscoped.2.1 (same.1.symm.trans unscoped.1)
    · have same := completedFor (Or.inr (Or.inr (Or.inr unscoped)))
      exact unscoped.2.1 (same.1.trans unscoped.1)
  · intro clear
    constructor
    · rintro ⟨differentID, same | splits⟩
      · exact same
      · exact absurd (Or.inl ⟨Or.inl differentID, splits⟩) clear
    · rintro (same | ⟨tenants, splits⟩ | unscoped)
      · exact same
      · exact absurd (Or.inl ⟨Or.inr tenants, splits⟩) clear
      · exact absurd (Or.inr unscoped) clear

/-- A task of the tenant `a` with the dedupe key `b`. -/
def plainTask : Task := { id := ascii "1", tenantID := ascii "a", dedupeKey := ascii "b" }

/-- A task of the tenant `c` with the dedupe key `b`. -/
def otherTenantTask : Task := { id := ascii "2", tenantID := ascii "c", dedupeKey := ascii "b" }

theorem isolated_plain_tasks : Isolated plainTask otherTenantTask := by
  refine (isolated_iff_not_ambiguous (by decide) (by decide)).mpr ?_
  simp [Ambiguous, Splits, Unscoped, plainTask, otherTenantTask, ascii]

/-- The tenant `a` with the dedupe key `b:c` and the tenant `a:b` with the dedupe
key `c` suppress each other's tasks and complete them for each other. -/
theorem tenants_suppress :
    ∃ first second : Task, first.dedupeKey ≠ [] ∧ second.dedupeKey ≠ [] ∧
      first.tenantID ≠ second.tenantID ∧ Suppresses first second ∧
      CompletesFor exactDeduper first second := by
  let first : Task := { id := ascii "1", tenantID := ascii "a", dedupeKey := ascii "b:c" }
  let second : Task := { id := ascii "2", tenantID := ascii "a:b", dedupeKey := ascii "c" }
  have firstKeyed : first.dedupeKey ≠ [] := by decide
  have secondKeyed : second.dedupeKey ≠ [] := by decide
  have splits : Splits first second := ⟨ascii "b", by decide, by decide⟩
  refine ⟨first, second, firstKeyed, secondKeyed, by decide, ?_, ?_⟩
  · exact (suppresses_iff firstKeyed secondKeyed).mpr
      ⟨by decide, dedupeKey_eq_iff.mpr (Or.inr (Or.inl splits))⟩
  · exact (completesFor_exact_iff firstKeyed secondKeyed).mpr
      (Or.inr (Or.inl ⟨by decide, Or.inl splits⟩))

end Plumego.Mq
