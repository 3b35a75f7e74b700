/-
Module: Plumego.Mq.Worker
Purpose: How a worker handles one reserved task: the limit of attempts, the
  check for completed work, the handler with its lease extensions, and how the
  task is settled.
Trusted boundary: the handler's result, the ticks of the lease timer while it
  runs, the delay of the retry policy, the clock and the failures of the deduper
  come from outside and are given as data. No other call comes between the worker's
  own. A deduper answers from the keys that were marked, under the entries its
  implementation builds from them.
Main exports: Deduper, WorkerConfig, Disposition, WorkerConfig.handleTask
-/
import Plumego.Go.Utf8
import Plumego.Mq.MemStore

namespace Plumego.Mq

open Plumego.Go Plumego.Lib

/-- `DefaultTaskMaxAttempts`. -/
def defaultTaskMaxAttempts : Int64 := 5

/-! ## Dedupers -/

/-- A `TaskDeduper`: the entry it builds from a key, `none` where it refuses the
key, and the entries marked as completed. -/
structure Deduper where
  entry : Bytes → Option Bytes
  marked : List Bytes := []

namespace Deduper

variable (deduper : Deduper)

def isCompleted (key : Bytes) : Bool :=
  (deduper.entry key).elim false (· ∈ deduper.marked)

def markCompleted (key : Bytes) : Deduper :=
  { deduper with marked := (deduper.entry key).elim deduper.marked (· :: deduper.marked) }

end Deduper

/-- A deduper that keeps every key as it is. -/
def exactDeduper : Deduper where
  entry := some

/-! ## The worker -/

structure WorkerConfig where
  consumerID : Bytes
  leaseDuration : Int := defaultLeaseDuration
  dedupeKeyFunc : Option (Task → Bytes) := none

/-- The store and the deduper that a worker calls. -/
structure WorkerState where
  store : MemStore
  deduper : Option Deduper

/-- What happens around one task while it is handled. -/
structure Surroundings where
  /-- `IsCompleted` fails. -/
  checkFails : Bool := false
  /-- `MarkCompleted` fails. -/
  markFails : Bool := false
  /-- The error text of the handler, `none` in the outer option where the topic
  has no handler. -/
  handler : Option (Option Bytes)
  /-- When the lease timer fires while the handler runs. -/
  ticks : List Time := []
  retryDelay : Int := 0
  now : Time

/-- How the worker was done with a task. -/
inductive Disposition where
  | exhausted
  | alreadyCompleted
  | leaseLost
  | completed
  | failed
deriving DecidableEq, Repr

namespace WorkerConfig

variable (config : WorkerConfig)

def dedupeKey (task : Task) : Bytes :=
  match config.dedupeKeyFunc with
  | some keyFunc => keyFunc task
  | none =>
    let key := if task.dedupeKey = [] then task.id else task.dedupeKey
    if key = [] then []
    else if task.tenantID ≠ [] then task.tenantID ++ ascii ":" ++ key
    else key

/-- The completion check of `handleTask`. -/
def completed (state : WorkerState) (task : Task) (around : Surroundings) : Bool :=
  match state.deduper with
  | none => false
  | some deduper =>
    !decide (config.dedupeKey task = []) && !around.checkFails &&
      deduper.isCompleted (config.dedupeKey task)

def markDeduped (state : WorkerState) (task : Task) (around : Surroundings) : WorkerState :=
  if config.dedupeKey task = [] ∨ around.markFails then state
  else { state with deduper := state.deduper.map (·.markCompleted (config.dedupeKey task)) }

/-- `extendLeaseLoop`: one extension per tick, up to the first that fails. -/
def extendLeaseLoop (task : Task) : List Time → MemStore → MemStore × Bool
  | [], store => (store, false)
  | tick :: ticks, store =>
    match store.extendLease task.id config.consumerID config.leaseDuration tick with
    | (store, some _) => (store, true)
    | (store, none) => extendLeaseLoop task ticks store

def failTask (store : MemStore) (task : Task) (reason : Bytes) (around : Surroundings) :
    MemStore :=
  let maxAttempts := if task.maxAttempts ≤ 0 then defaultTaskMaxAttempts else task.maxAttempts
  if maxAttempts ≤ task.attempts then
    (store.moveToDLQ task.id config.consumerID reason around.now).1
  else
    (store.release task.id config.consumerID
      { retryAt := around.now + around.retryDelay, reason := reason, now := around.now }).1

def handleTask (state : WorkerState) (task : Task) (around : Surroundings) :
    WorkerState × Disposition :=
  if 0 < task.maxAttempts ∧ task.maxAttempts < task.attempts then
    ({ state with
        store := (state.store.moveToDLQ task.id config.consumerID
          (ascii "max attempts exceeded") around.now).1 }, .exhausted)
  else if config.completed state task around then
    ({ state with store := (state.store.ack task.id config.consumerID around.now).1 },
      .alreadyCompleted)
  else
    match around.handler with
    | none =>
      ({ state with
          store := config.failTask state.store task
            (ascii "no handler registered for topic " ++ task.topic) around }, .failed)
    | some result =>
      match config.extendLeaseLoop task around.ticks state.store with
      | (store, true) => ({ state with store := store }, .leaseLost)
      | (store, false) =>
        match result with
        | none =>
          let state := config.markDeduped { state with store := store } task around
          ({ state with store := (state.store.ack task.id config.consumerID around.now).1 },
            .completed)
        | some reason =>
          ({ state with store := config.failTask store task reason around }, .failed)

end WorkerConfig

end Plumego.Mq
