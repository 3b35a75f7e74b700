/-
Module: Plumego.Mq.MemStore
Purpose: The in-memory store of the task queue: insertion with deduplication,
  reservation under a lease, the four calls of a lease's owner, and the replay
  of dead tasks.
Trusted boundary: every call holds the store's mutex from its first access to
  its last, so calls are atomic. Which order `sort.Slice` gives equal elements
  is left open (Go.Sorting), and with it the order of the map loops before it.
  What the configured clock returns is given with the call that reads it.
Main exports: Task, MemRecord, MemStore, Call, Result, machine
-/
import Mathlib.Tactic.Common
import Plumego.Go.Maps
import Plumego.Go.Order
import Plumego.Go.Time
import Plumego.Lib.Machine

namespace Plumego.Mq

open Plumego.Go
open Plumego.Lib

def errDuplicateTask : GoError := .new "mq: duplicate task"

def errTaskNotFound : GoError := .new "mq: task not found"

def errLeaseLost : GoError := .new "mq: lease lost"

/-- `DefaultLeaseDuration`, 30 seconds. -/
def defaultLeaseDuration : Int := 30 * 10 ^ 9

/-- The `TaskStatus` constants. -/
inductive TaskStatus where
  | queued
  | leased
  | done
  | dead
  | expired
deriving DecidableEq, Repr

structure Task where
  id : Bytes
  topic : Bytes := []
  tenantID : Bytes := []
  payload : Bytes := []
  metadata : StringMap Bytes := ∅
  priority : Int := 0
  expiresAt : Time := zeroTime
  dedupeKey : Bytes := []
  availableAt : Time := zeroTime
  attempts : Int64 := 0
  maxAttempts : Int64 := 0
  leaseOwner : Bytes := []
  leaseUntil : Time := zeroTime
  createdAt : Time := zeroTime
  updatedAt : Time := zeroTime
deriving DecidableEq

structure ReserveOptions where
  topics : List Bytes := []
  limit : Int
  lease : Int := 0
  consumerID : Bytes
  now : Time := zeroTime

structure ReleaseOptions where
  retryAt : Time
  reason : Bytes := []
  now : Time

structure ReplayOptions where
  max : Int := 0
  now : Time := zeroTime
  availableAt : Time := zeroTime
  resetAttempts : Bool := false

structure MemRecord where
  task : Task
  status : TaskStatus
  lastError : Bytes := []
  lastErrorAt : Time := zeroTime
deriving DecidableEq

structure MemStore where
  tasks : StringMap MemRecord := ∅
  dedupe : StringMap Bytes := ∅
deriving DecidableEq

/-- `dedupeKey` of the store. -/
def dedupeKey (tenantID dedupe : Bytes) : Bytes := tenantID ++ ascii ":" ++ dedupe

def topicAllowed (topic : Bytes) (topics : List Bytes) : Bool := topics.any (· == topic)

/-! ## Reserving -/

namespace ReserveOptions

variable (opts : ReserveOptions)

/-- The clock and the lease that `Reserve` puts in for missing ones. -/
def withDefaults (reading : Time) : ReserveOptions :=
  { opts with
    now := if isZero opts.now then reading else opts.now
    lease := if opts.lease ≤ 0 then defaultLeaseDuration else opts.lease }

/-- A queued task that has run past its `ExpiresAt`. -/
def lapsed (record : MemRecord) : Bool :=
  record.status == .queued && !isZero record.task.expiresAt &&
    !decide (opts.now < record.task.expiresAt)

/-- What the loop of `Reserve` collects. -/
def isCandidate (record : MemRecord) : Bool :=
  record.status == .queued && !opts.lapsed record &&
    !decide (opts.now < record.task.availableAt) &&
    !(!opts.topics.isEmpty && !topicAllowed record.task.topic opts.topics)

/-- What the loop of `Reserve` does to a record it does not collect. -/
def expire (record : MemRecord) : MemRecord :=
  if opts.lapsed record then { record with status := .expired } else record

/-- What `Reserve` does to a record it selects. -/
def leaseTo (record : MemRecord) : MemRecord :=
  { record with
    status := .leased
    task := { record.task with
      leaseOwner := opts.consumerID
      leaseUntil := opts.now + opts.lease
      attempts := record.task.attempts + 1
      updatedAt := opts.now } }

end ReserveOptions

/-- The order of the candidates: higher priority first, then older first. -/
def reserveLess (first second : Bytes × MemRecord) : Bool :=
  if first.2.task.priority = second.2.task.priority then
    decide (first.2.task.createdAt < second.2.task.createdAt)
  else decide (second.2.task.priority < first.2.task.priority)

/-- The order in which dead tasks are replayed. -/
def replayLess (first second : Bytes × MemRecord) : Bool :=
  decide (first.2.task.updatedAt < second.2.task.updatedAt)

theorem reserveLess_eq_true {first second : Bytes × MemRecord} :
    reserveLess first second = true ↔
      second.2.task.priority < first.2.task.priority ∨
        first.2.task.priority = second.2.task.priority ∧
          first.2.task.createdAt < second.2.task.createdAt := by
  unfold reserveLess
  split
  · rename_i same
    simp [same]
  · rename_i different
    simp [different]

theorem reserveLess_weakOrder : WeakOrder reserveLess where
  asymmetric first second less := by
    rw [← Bool.not_eq_true, reserveLess_eq_true]
    rw [reserveLess_eq_true] at less
    unfold Time at less
    unfold Time
    omega
  transitive first second third notLess thenNotLess := by
    rw [← Bool.not_eq_true, reserveLess_eq_true] at notLess thenNotLess ⊢
    unfold Time at notLess thenNotLess ⊢
    omega

namespace MemStore

variable (store : MemStore)

def insert (task : Task) : MemStore × Option GoError :=
  if (store.tasks.lookup task.id).isSome then (store, some errDuplicateTask)
  else if task.dedupeKey ≠ [] then
    if (store.dedupe.lookup (dedupeKey task.tenantID task.dedupeKey)).isSome then
      (store, some errDuplicateTask)
    else
      ({ tasks := store.tasks.insert task.id ⟨task, .queued, [], zeroTime⟩
         dedupe := store.dedupe.insert (dedupeKey task.tenantID task.dedupeKey) task.id }, none)
  else ({ store with tasks := store.tasks.insert task.id ⟨task, .queued, [], zeroTime⟩ }, none)

/-- The records that `Reserve` selects, with the defaults already in `opts`. -/
def selected (opts : ReserveOptions) (sorting : SliceSort reserveLess) :
    List (Bytes × MemRecord) :=
  (sorting.sort ((pairs store.tasks).filter fun entry => opts.isCandidate entry.2)).take
    opts.limit.toNat

/-- `Reserve`, where the configured clock returns `reading`. -/
def reserve (opts : ReserveOptions) (reading : Time) (sorting : SliceSort reserveLess) :
    MemStore × List Task :=
  if opts.limit ≤ 0 then (store, [])
  else
    let opts := opts.withDefaults reading
    let chosen := store.selected opts sorting
    ({ store with
        tasks := mapValues (fun id record =>
          if id ∈ chosen.map Prod.fst then opts.leaseTo record else opts.expire record)
          store.tasks },
      chosen.map fun entry => (opts.leaseTo entry.2).task)

end MemStore

/-! ## Calls on a lease -/

namespace MemRecord

variable (record : MemRecord)

/-- The guard of the four calls on a lease: the record is leased to the consumer
and the lease has not run out. A zero `LeaseUntil` never runs out. -/
def leaseHeld (consumerID : Bytes) (now : Time) : Bool :=
  record.status == .leased && record.task.leaseOwner == consumerID &&
    !(!isZero record.task.leaseUntil && decide (record.task.leaseUntil < now))

/-- What `Ack` makes of the record. -/
def acked (now : Time) : MemRecord :=
  { record with
    status := .done
    task := { record.task with leaseOwner := [], leaseUntil := zeroTime, updatedAt := now } }

/-- What `Release` makes of the record. -/
def released (opts : ReleaseOptions) : MemRecord where
  task := { record.task with
    leaseOwner := []
    leaseUntil := zeroTime
    availableAt := opts.retryAt
    updatedAt := opts.now }
  status := .queued
  lastError := opts.reason
  lastErrorAt := opts.now

/-- What `MoveToDLQ` makes of the record. -/
def deadLettered (reason : Bytes) (now : Time) : MemRecord where
  task := { record.task with leaseOwner := [], leaseUntil := zeroTime, updatedAt := now }
  status := .dead
  lastError := reason
  lastErrorAt := now

/-- What `ExtendLease` makes of the record. -/
def extended (lease : Int) (now : Time) : MemRecord :=
  { record with task := { record.task with leaseUntil := now + lease, updatedAt := now } }

end MemRecord

namespace MemStore

variable (store : MemStore)

/-- A call on a lease: the guard, then the change of the record. -/
def onLease (taskID consumerID : Bytes) (now : Time) (change : MemRecord → MemRecord) :
    MemStore × Option GoError :=
  match store.tasks.lookup taskID with
  | none => (store, some errTaskNotFound)
  | some record =>
    if record.leaseHeld consumerID now then
      ({ store with tasks := store.tasks.insert taskID (change record) }, none)
    else (store, some errLeaseLost)

def ack (taskID consumerID : Bytes) (now : Time) : MemStore × Option GoError :=
  store.onLease taskID consumerID now (·.acked now)

def release (taskID consumerID : Bytes) (opts : ReleaseOptions) : MemStore × Option GoError :=
  store.onLease taskID consumerID opts.now (·.released opts)

def moveToDLQ (taskID consumerID reason : Bytes) (now : Time) : MemStore × Option GoError :=
  store.onLease taskID consumerID now (·.deadLettered reason now)

def extendLease (taskID consumerID : Bytes) (lease : Int) (now : Time) :
    MemStore × Option GoError :=
  store.onLease taskID consumerID now (·.extended lease now)

end MemStore

/-! ## Replaying -/

namespace ReplayOptions

variable (opts : ReplayOptions)

/-- The clock and the time of availability that `ReplayDLQ` puts in for missing
ones. -/
def withDefaults (reading : Time) : ReplayOptions :=
  let now := if isZero opts.now then reading else opts.now
  { opts with
    now := now
    availableAt := if isZero opts.availableAt then now else opts.availableAt }

/-- What `ReplayDLQ` does to a record it replays. -/
def replay (record : MemRecord) : MemRecord :=
  { record with
    status := .queued
    task := { record.task with
      leaseOwner := []
      leaseUntil := zeroTime
      availableAt := opts.availableAt
      updatedAt := opts.now
      attempts := if opts.resetAttempts then 0 else record.task.attempts } }

end ReplayOptions

namespace MemStore

variable (store : MemStore)

/-- The dead records, in the order in which they are replayed. -/
def dead (sorting : SliceSort replayLess) : List (Bytes × MemRecord) :=
  sorting.sort ((pairs store.tasks).filter fun entry => entry.2.status == .dead)

/-- How many of the dead records a replay takes. -/
def replayLimit (opts : ReplayOptions) (count : Nat) : Nat :=
  if opts.max ≤ 0 ∨ (count : Int) < opts.max then count else opts.max.toNat

/-- `ReplayDLQ`, with the numbers of replayed and of remaining records. -/
def replayDLQ (opts : ReplayOptions) (reading : Time) (sorting : SliceSort replayLess) :
    MemStore × Nat × Nat :=
  let opts := opts.withDefaults reading
  let dead := store.dead sorting
  if dead.length = 0 then (store, 0, 0)
  else
    let limit := replayLimit opts dead.length
    ({ store with
        tasks := mapValues (fun id record =>
          if id ∈ (dead.take limit).map Prod.fst then opts.replay record else record)
          store.tasks },
      limit, dead.length - limit)

end MemStore

/-! ## The store as a machine -/

/-- A call, with what the clock returned to it and how it sorted. -/
inductive Call where
  | insert (task : Task)
  | reserve (opts : ReserveOptions) (reading : Time) (sorting : SliceSort reserveLess)
  | ack (taskID consumerID : Bytes) (now : Time)
  | release (taskID consumerID : Bytes) (opts : ReleaseOptions)
  | moveToDLQ (taskID consumerID reason : Bytes) (now : Time)
  | extendLease (taskID consumerID : Bytes) (lease : Int) (now : Time)
  | replayDLQ (opts : ReplayOptions) (reading : Time) (sorting : SliceSort replayLess)

/-- What a call returns. -/
inductive Result where
  | error (failure : Option GoError)
  | tasks (reserved : List Task)
  | replayed (count remaining : Nat)
deriving DecidableEq

namespace MemStore

def call (store : MemStore) : Call → MemStore × Result
  | .insert task => (store.insert task).map id .error
  | .reserve opts reading sorting => (store.reserve opts reading sorting).map id .tasks
  | .ack taskID consumerID now => (store.ack taskID consumerID now).map id .error
  | .release taskID consumerID opts => (store.release taskID consumerID opts).map id .error
  | .moveToDLQ taskID consumerID reason now =>
    (store.moveToDLQ taskID consumerID reason now).map id .error
  | .extendLease taskID consumerID lease now =>
    (store.extendLease taskID consumerID lease now).map id .error
  | .replayDLQ opts reading sorting =>
    (store.replayDLQ opts reading sorting).map id fun counts => .replayed counts.1 counts.2

/-- The status of a task, `none` where the store has no such task. -/
def statusOf (store : MemStore) (id : Bytes) : Option TaskStatus :=
  (store.tasks.lookup id).map MemRecord.status

end MemStore

/-- The store, one call at a time. -/
def machine : Machine MemStore Call Result where
  step store call := some (store.call call)

end Plumego.Mq
