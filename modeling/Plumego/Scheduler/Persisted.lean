/-
Module: Plumego.Scheduler.Persisted
Purpose: How the scheduler restores its delay jobs from the store when it is made.
Trusted boundary: what `Store.List` returns is a parameter, in the order of the list. The functions
  of the tasks are named by their names. Groups, tags, timeouts and the backoff of a stored job are
  left out, and so is the log of the jobs that could not be restored.
Main exports: StoredJob, schedule, buildLoadOpts, loadPersisted
-/
import Plumego.Scheduler.Jobs

namespace Plumego.Scheduler.Jobs

open Plumego.Go

def errRunAtRequired : GoError := .new "scheduler: runAt is required"

/-- `StoredJob`, with the attempts of its retry policy. -/
structure StoredJob where
  id : JobID
  runAt : Time
  taskName : Bytes
  overlap : OverlapPolicy
  maxAttempts : Int
  dependencies : List JobID
  dependencyPolicy : DependencyFailurePolicy
deriving DecidableEq, Repr

/-- `Schedule`. -/
def schedule (registry : Registry) (id : JobID) (runAt : Time) (options : JobOptions) :
    Registry × Except GoError JobID :=
  if isZero runAt then (registry, .error errRunAtRequired)
  else addJob registry id .delay runAt options

/-- `buildLoadOpts`. -/
def buildLoadOpts (item : StoredJob) : JobOptions :=
  { defaultJobOptions with
    overlapPolicy := item.overlap
    maxAttempts := item.maxAttempts
    replace := true }

/-- The first pass: jobs without dependencies are restored, those with dependencies are put off. -/
def loadPlain (registered : Bytes → Bool) : Registry → List StoredJob → Registry × List StoredJob
  | registry, [] => (registry, [])
  | registry, item :: stored =>
    if item.taskName = [] then loadPlain registered registry stored
    else if registered item.taskName = false then loadPlain registered registry stored
    else if 0 < item.dependencies.length then
      let (after, withDeps) := loadPlain registered registry stored
      (after, item :: withDeps)
    else
      loadPlain registered (schedule registry item.id item.runAt (buildLoadOpts item)).1 stored

/-- The second pass. -/
def loadDependent (registered : Bytes → Bool) : Registry → List StoredJob → Registry
  | registry, [] => registry
  | registry, item :: withDeps =>
    if registered item.taskName = false then loadDependent registered registry withDeps
    else
      loadDependent registered
        (schedule registry item.id item.runAt
          { buildLoadOpts item with
            dependencies := item.dependencies
            dependencyPolicy := item.dependencyPolicy }).1 withDeps

/-- `loadPersisted`, with the names of the tasks that are registered. -/
def loadPersisted (registered : Bytes → Bool) (registry : Registry) (stored : List StoredJob) : Registry :=
  let (plain, withDeps) := loadPlain registered registry stored
  loadDependent registered plain withDeps

end Plumego.Scheduler.Jobs
