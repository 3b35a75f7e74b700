/-
Module: Plumego.Scheduler.Completions
Purpose: The scheduler's registry while jobs are executed: the locked sections and atomic stores of the
  run loop and of executions, in any order with the calls of the API.
Trusted boundary: as for the jobs. Each locked section and each atomic store is one step. The steps of
  an execution may come at any time, also for a job that was not dispatched.
Main exports: succeedLocked, Progress, Act, act, progressMachine
-/
import Plumego.Scheduler.Jobs

namespace Plumego.Scheduler.Jobs

open Plumego.Go Plumego.Lib

/-- The locked section of `execute` after a success. -/
def succeedLocked (registry : Registry) (job : Nat) : Registry :=
  match registry.objects[job]? with
  | none => registry
  | some object =>
    let maxRunsReached := decide (0 < object.options.maxRuns) &&
      decide (object.options.maxRuns ≤ object.runCount + 1)
    let serial := decide (object.options.overlapPolicy = .serialQueue)
    let registry := registry.modify job fun object =>
      { object with
        nextAttempt := 1
        runCount := object.runCount + 1
        state := if object.kind = .delay ∨ maxRunsReached then .completed else object.state
        pending := if serial then false else object.pending }
    let registry :=
      { registry with dependencyStatus := registry.dependencyStatus.insert object.id true }
    if serial && object.pending && !maxRunsReached && !object.running then
      scheduleAt registry job registry.clock
    else registry

/-- The registry, with the jobs that have succeeded or failed and whose dependents are still to be
told. -/
structure Progress where
  registry : Registry
  completing : List JobID
  failing : List JobID

/-- What happens next. -/
inductive Act where
  | call (op : Call)
  | succeed (job : Nat)
  | reschedule (job : Nat) (base : Time) (delay : Int)
  | trigger (place : Nat)
  | retire (job : Nat)
  | pop (place : Nat)
  | setRunning (job : Nat) (running : Bool)
  | setPending (job : Nat)
  | setState (job : Nat) (state : JobState)
  | countAttempt (job : Nat)
  | retry (job : Nat) (runAt : Time)
  | fail (job : Nat)
  | notifyFailure (place : Nat)
deriving DecidableEq, Repr

/-- One section under the lock. -/
def act (progress : Progress) : Act → Progress
  | .call op => { progress with registry := call progress.registry op }
  | .succeed job =>
    { progress with
      registry := succeedLocked progress.registry job
      completing := progress.completing ++
        ((progress.registry.objects[job]?).map Job.id).toList }
  | .reschedule job base delay =>
    { progress with registry := scheduleNext progress.registry job base delay }
  | .trigger place =>
    match progress.completing[place]? with
    | none => progress
    | some id =>
      { progress with
        registry := triggerDependentJobs progress.registry id
        completing := progress.completing.eraseIdx place }
  | .retire job =>
    match progress.registry.objects[job]? with
    | none => progress
    | some object => { progress with registry := retireJobLocked progress.registry object.id job }
  | .pop place =>
    { progress with registry :=
        { progress.registry with queue := progress.registry.queue.eraseIdx place } }
  | .setRunning job running =>
    { progress with registry :=
        progress.registry.modify job fun object => { object with running := running } }
  | .setPending job =>
    { progress with registry :=
        progress.registry.modify job fun object => { object with pending := true } }
  | .setState job state =>
    -- at the start of an execution, before a retry, and after the last failure
    { progress with registry := progress.registry.modify job (setJobStateLocked state) }
  | .countAttempt job =>
    -- the first section of `handleFailure`
    { progress with registry := progress.registry.modify job fun object =>
        if 1 < object.options.maxAttempts ∧ object.nextAttempt < object.options.maxAttempts then
          { object with nextAttempt := object.nextAttempt + 1 }
        else object }
  | .retry job runAt =>
    { progress with registry := pushScheduleItemLocked progress.registry job runAt true }
  | .fail job =>
    match progress.registry.objects[job]? with
    | none => progress
    | some object =>
      { progress with
        registry := { progress.registry with
          dependencyStatus := progress.registry.dependencyStatus.insert object.id false }
        failing := progress.failing ++ [object.id] }
  | .notifyFailure place =>
    match progress.failing[place]? with
    | none => progress
    | some id =>
      { progress with
        registry := handleDependentJobsOnFailure progress.registry id
        failing := progress.failing.eraseIdx place }

/-- The scheduler as a machine. -/
def progressMachine : Machine Progress Act Unit :=
  ⟨fun progress op => some (act progress op, ())⟩

end Plumego.Scheduler.Jobs
