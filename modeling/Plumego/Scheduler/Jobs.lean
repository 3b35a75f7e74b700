/-
Module: Plumego.Scheduler.Jobs
Purpose: The registry of the scheduler: its jobs, the schedule queue, and who depends on whom, with
  every function that changes them under the lock.
Trusted boundary: a job is named by its place among the jobs ever made, as a pointer would name it.
  The lists of dependents are slices into arrays, since they are filtered in place while a loop
  reads them. The items that were ever pushed are kept beside the queue; no function reads them. The
  dead letter queue, `TriggerNow`, `UpdateCron` and the logger are left out.
  Versions and run counts do not reach 64 bits.
Main exports: Job, Registry, cancelJobLocked, triggerDependentJobs, addJob, Call, registryMachine
-/
import Plumego.Go.Maps
import Plumego.Lib.Machine
import Plumego.Scheduler.Cron

namespace Plumego.Scheduler.Jobs

open Plumego.Go Plumego.Lib

abbrev JobID := Bytes

def errSchedulerClosed : GoError := .new "scheduler: closed"

def errJobExists : GoError := .new "scheduler: job already exists"

def errSelfDependency : GoError := .new "scheduler: job cannot depend on itself"

def errDependencyNotFound : GoError := .new "scheduler: dependency job not found"

def errDependencyCycle : GoError := .new "scheduler: dependency cycle detected"

/-! ## Jobs -/

/-- `OverlapPolicy`. -/
inductive OverlapPolicy where
  | allowConcurrent
  | skipIfRunning
  | serialQueue
deriving DecidableEq, Repr

/-- `DependencyFailurePolicy`. -/
inductive DependencyFailurePolicy where
  | skip
  | cancel
  | proceed
deriving DecidableEq, Repr

/-- `jobKind`, a cron job with its spec. -/
inductive JobKind where
  | cron (spec : CronSpec)
  | delay
deriving DecidableEq, Repr

/-- `JobState`. -/
inductive JobState where
  | queued
  | scheduled
  | running
  | failed
  | retrying
  | canceled
  | completed
deriving DecidableEq, Repr

/-- `JobOptions`; of the retry policy, only how many attempts there are. -/
structure JobOptions where
  overlapPolicy : OverlapPolicy
  maxAttempts : Int
  paused : Bool
  replace : Bool
  dependencies : List JobID
  dependencyPolicy : DependencyFailurePolicy
  jitter : Int
  maxRuns : Int
deriving DecidableEq, Repr

/-- `defaultJobOptions`. -/
def defaultJobOptions : JobOptions where
  overlapPolicy := .allowConcurrent
  maxAttempts := 0
  paused := false
  replace := false
  dependencies := []
  dependencyPolicy := .skip
  jitter := 0
  maxRuns := 0

/-- `job`. -/
structure Job where
  id : JobID
  kind : JobKind
  runAt : Time
  options : JobOptions
  paused : Bool
  canceled : Bool
  nextAttempt : Int
  running : Bool
  pending : Bool
  state : JobState
  runCount : Int
  scheduleVersion : Nat
deriving DecidableEq, Repr

/-- `scheduleItem`. -/
structure ScheduleItem where
  runAt : Time
  job : Nat
  version : Nat
deriving DecidableEq, Repr

/-- The first items of an array. -/
structure Slice where
  array : Nat
  len : Nat
deriving DecidableEq, Repr

/-- The part of `Scheduler` under the lock, with the clock. -/
structure Registry where
  objects : List Job
  jobs : StringMap Nat
  queue : List ScheduleItem
  pushed : List ScheduleItem
  closed : Bool
  dependents : StringMap Slice
  arrays : List (List JobID)
  dependencyStatus : StringMap Bool
  clock : Time

/-- The registry of `New`. -/
def newRegistry (clock : Time) : Registry where
  objects := []
  jobs := ∅
  queue := []
  pushed := []
  closed := false
  dependents := ∅
  arrays := []
  dependencyStatus := ∅
  clock := clock

/-- The change of one job. -/
def Registry.modify (registry : Registry) (job : Nat) (change : Job → Job) : Registry :=
  { registry with objects := registry.objects.modify job change }

/-- `setJobStateLocked`. -/
def setJobStateLocked (state : JobState) (job : Job) : Job := { job with state := state }

/-- `setJobStateIfIdleLocked`. -/
def setJobStateIfIdleLocked (state : JobState) (job : Job) : Job :=
  if job.running then job
  else if job.state = .retrying then job
  else setJobStateLocked state job

/-! ## The schedule -/

/-- `PushSchedule`. -/
def Registry.pushSchedule (registry : Registry) (item : ScheduleItem) : Registry :=
  { registry with queue := registry.queue ++ [item], pushed := registry.pushed ++ [item] }

/-- `pushScheduleItemLocked`. -/
def pushScheduleItemLocked (registry : Registry) (job : Nat) (runAt : Time)
    (invalidateExisting : Bool) : Registry :=
  match registry.objects[job]? with
  | none => registry
  | some object =>
    if invalidateExisting then
      (registry.modify job fun object =>
        { object with scheduleVersion := object.scheduleVersion + 1 }).pushSchedule
          ⟨runAt, job, object.scheduleVersion + 1⟩
    else registry.pushSchedule ⟨runAt, job, 0⟩

/-- The state and the item of a job that is to run at an instant. -/
def scheduleAt (registry : Registry) (job : Nat) (runAt : Time) : Registry :=
  pushScheduleItemLocked (registry.modify job (setJobStateIfIdleLocked .scheduled)) job runAt true

/-- `pushScheduleLocked`. -/
def pushScheduleLocked (registry : Registry) (job : Nat) (runAt : Time) : Registry :=
  match registry.objects[job]? with
  | none => registry
  | some object =>
    if object.canceled then pushScheduleItemLocked registry job runAt true
    else scheduleAt registry job runAt

/-- `scheduleNext`; the delay that `nextJitter` gives is less than the jitter of the job. -/
def scheduleNext (registry : Registry) (job : Nat) (base : Time) (delay : Int) : Registry :=
  match registry.objects[job]? with
  | none => registry
  | some object =>
    if registry.closed || object.canceled then registry
    else
      match object.kind with
      | .delay => registry
      | .cron spec =>
        if isZero (next spec base) then registry
        else
          let runAt := next spec base +
            if 0 < object.options.jitter then delay % object.options.jitter else 0
          scheduleAt (registry.modify job fun object => { object with runAt := runAt }) job runAt

/-! ## Dependencies -/

/-- What an array has at a place. -/
def Registry.read (registry : Registry) (array place : Nat) : Option JobID :=
  (registry.arrays[array]?).bind fun items => items[place]?

/-- `allDependenciesMetLocked`. -/
def allDependenciesMetLocked (registry : Registry) (object : Job) : Bool :=
  object.options.dependencies.all fun id => registry.dependencyStatus.lookup id = some true

/-- `allDependenciesMetExceptLocked`. -/
def allDependenciesMetExceptLocked (registry : Registry) (object : Job) (except : JobID) : Bool :=
  object.options.dependencies.all fun id =>
    id = except || registry.dependencyStatus.lookup id = some true

/-- `deps[:0]`, filled with the dependents other than one: the array is written over from its
start, and keeps what it had behind. -/
def removeDependent (id : JobID) (registry : Registry) (dependency : JobID) : Registry :=
  match registry.dependents.lookup dependency with
  | none => registry
  | some slice =>
    let items := registry.arrays.getD slice.array []
    let filtered := (items.take slice.len).filter (· ≠ id)
    { registry with
      arrays := registry.arrays.set slice.array (filtered ++ items.drop filtered.length)
      dependents := if filtered = [] then registry.dependents.erase dependency
        else registry.dependents.insert dependency ⟨slice.array, filtered.length⟩ }

/-- `cleanupDependencyTrackingLocked`. -/
def cleanupDependencyTrackingLocked (registry : Registry) (id : JobID) (job : Nat) : Registry :=
  let dependencies := (registry.objects[job]?).elim [] fun object => object.options.dependencies
  let registry := { registry with dependents := registry.dependents.erase id }
  let registry := dependencies.foldl (removeDependent id) registry
  { registry with dependencyStatus := registry.dependencyStatus.erase id }

/-- `skipDependentJobLocked`. -/
def skipDependentJobLocked (registry : Registry) (job : Nat) : Registry :=
  match registry.objects[job]? with
  | none => registry
  | some object =>
    match object.kind with
    | .cron spec =>
      let runAt := next spec registry.clock
      scheduleAt (registry.modify job fun object => { object with runAt := runAt }) job runAt
    | .delay => registry.modify job (setJobStateLocked .failed)

/-- `applyDependentPolicyLocked`, with what cancels a job. -/
def applyDependentPolicyLocked (cancelJob : JobID → Nat → Registry → Registry) (id : JobID) (job : Nat)
    (trigger : JobID) (registry : Registry) : Registry :=
  match registry.objects[job]? with
  | none => registry
  | some object =>
    match object.options.dependencyPolicy with
    | .skip => skipDependentJobLocked registry job
    | .cancel => cancelJob id job registry
    | .proceed =>
      if allDependenciesMetExceptLocked registry object trigger then
        scheduleAt registry job object.runAt
      else registry

/-- The job of an identifier, unless it was canceled. -/
def liveJob (registry : Registry) (id : JobID) : Option Nat :=
  (registry.jobs.lookup id).filter fun job =>
    (registry.objects[job]?).elim false fun object => !object.canceled

/-- The loop over the dependents of a job: the array is read as it is when the loop gets there. -/
def forDependents (slice : Slice) (visit : JobID → Nat → Registry → Registry) (registry : Registry) :
    Registry :=
  (List.range slice.len).foldl (fun registry place =>
    match registry.read slice.array place with
    | none => registry
    | some id =>
      match liveJob registry id with
      | none => registry
      | some job => visit id job registry) registry

/-- `cancelJobLocked`. A job that is canceled on the way was not canceled before, so the calls are
nested no deeper than there are jobs. -/
def cancelJobLocked : Nat → JobID → Nat → Registry → Registry
  | 0, _, _, registry => registry
  | depth + 1, id, job, registry =>
    let registry := registry.modify job fun object =>
      setJobStateLocked .canceled { object with canceled := true }
    let registry := match registry.dependents.lookup id with
      | none => registry
      | some slice =>
        forDependents slice (fun dependent dependentJob =>
          applyDependentPolicyLocked (cancelJobLocked depth) dependent dependentJob id) registry
    cleanupDependencyTrackingLocked registry id job

/-- `cancelJobLocked` with depth enough. -/
def cancelJob (id : JobID) (job : Nat) (registry : Registry) : Registry :=
  cancelJobLocked (registry.objects.length + 1) id job registry

/-- `retireJobLocked`. -/
def retireJobLocked (registry : Registry) (id : JobID) (job : Nat) : Registry :=
  cleanupDependencyTrackingLocked
    (registry.modify job fun object => { object with canceled := true }) id job

/-- `handleDependentJobsOnFailure`. -/
def handleDependentJobsOnFailure (registry : Registry) (failed : JobID) : Registry :=
  match registry.dependents.lookup failed with
  | none => registry
  | some slice =>
    forDependents slice (fun id job =>
      applyDependentPolicyLocked cancelJob id job failed) registry

/-- `triggerDependentJobs`. -/
def triggerDependentJobs (registry : Registry) (completed : JobID) : Registry :=
  match registry.dependents.lookup completed with
  | none => registry
  | some slice =>
    forDependents slice (fun _ job registry =>
      match registry.objects[job]? with
      | none => registry
      | some object =>
        if object.paused then registry
        else if allDependenciesMetLocked registry object then scheduleAt registry job object.runAt
        else registry) registry

/-- `depPathExistsLocked`, with the identifiers visited; no result where calls are nested beyond a
depth. -/
def depPathExistsLocked (registry : Registry) (target : JobID) :
    Nat → JobID → List JobID → Option (Bool × List JobID)
  | 0, _, _ => none
  | depth + 1, current, visited =>
    if current = target then some (true, visited)
    else if current ∈ visited then some (false, visited)
    else
      let dependencies := ((registry.jobs.lookup current).bind fun job => registry.objects[job]?).elim
        [] fun object => object.options.dependencies
      dependencies.foldlM (fun (found, visited) dependency =>
        if found then some (found, visited)
        else depPathExistsLocked registry target depth dependency visited) (false, current :: visited)

/-- `wouldCreateDependencyCycleLocked`. Every call but the last of a path visits one more job, so calls
are not nested deeper than here. -/
def wouldCreateDependencyCycleLocked (registry : Registry) (id : JobID) (dependencies : List JobID) :
    Bool :=
  dependencies.any fun dependency =>
    dependency = id ||
      (depPathExistsLocked registry id (registry.jobs.keys.length + 2) dependency []).any Prod.fst

/-! ## The calls of the API -/

/-- The first dependency that is not valid. -/
def checkDependencies (registry : Registry) (id : JobID) : List JobID → Except GoError Unit
  | [] => .ok ()
  | dependency :: rest =>
    if dependency = id then .error errSelfDependency
    else
      match registry.jobs.lookup dependency with
      | none => .error (.wrapf "%w: %s" [.bytes dependency] errDependencyNotFound)
      | some _ => checkDependencies registry id rest

/-- `append` to the dependents of a job. Nothing else refers to the array then, so that it does not
matter whether it is a new one. -/
def appendDependent (id : JobID) (registry : Registry) (dependency : JobID) : Registry :=
  let items := (registry.dependents.lookup dependency).elim [] fun slice =>
    (registry.arrays.getD slice.array []).take slice.len
  { registry with
    arrays := registry.arrays ++ [items ++ [id]]
    dependents := registry.dependents.insert dependency ⟨registry.arrays.length, items.length + 1⟩ }

/-- The new job of `addJob`. -/
def newJob (clock : Time) (id : JobID) (kind : JobKind) (runAt : Time) (options : JobOptions) : Job where
  id := id
  kind := kind
  runAt := match kind with
    | .cron spec => next spec clock
    | .delay => if runAt < clock then clock else runAt
  options := options
  paused := options.paused
  canceled := false
  nextAttempt := 1
  running := false
  pending := false
  state := .queued
  runCount := 0
  scheduleVersion := 0

/-- The old job of an identifier is canceled before a new one takes its place. -/
def cancelExisting (registry : Registry) (id : JobID) : Registry :=
  match registry.jobs.lookup id with
  | none => registry
  | some existing => cancelJob id existing registry

/-- The registry with a new job. -/
def insertJob (registry : Registry) (object : Job) : Registry :=
  { registry with
    objects := registry.objects ++ [object]
    jobs := registry.jobs.insert object.id registry.objects.length }

/-- The end of `addJob`, when nothing speaks against the job. -/
def register (registry : Registry) (object : Job) : Registry :=
  let registry := cancelExisting registry object.id
  let job := registry.objects.length
  let registry := object.options.dependencies.foldl (appendDependent object.id)
    (insertJob registry object)
  if !object.paused && object.options.dependencies.isEmpty then
    pushScheduleLocked registry job object.runAt
  else registry

/-- `addJob`. -/
def addJob (registry : Registry) (id : JobID) (kind : JobKind) (runAt : Time) (options : JobOptions) :
    Registry × Except GoError JobID :=
  let id := if id = [] then ascii "job-" ++ formatInt (unixNano registry.clock) else id
  if registry.closed then (registry, .error errSchedulerClosed)
  else if !options.replace && (liveJob registry id).isSome then (registry, .error errJobExists)
  else
    match checkDependencies registry id options.dependencies with
    | .error failure => (registry, .error failure)
    | .ok () =>
      if wouldCreateDependencyCycleLocked registry id options.dependencies then
        (registry, .error (.wrapf "%w: %s" [.bytes id] errDependencyCycle))
      else (register registry (newJob registry.clock id kind runAt options), .ok id)

/-- `Cancel`. -/
def cancel (registry : Registry) (id : JobID) : Registry × Bool :=
  match registry.jobs.lookup id with
  | none => (registry, false)
  | some job => (cancelJob id job registry, true)

/-- `Pause`. -/
def pause (registry : Registry) (id : JobID) : Registry × Bool :=
  match registry.jobs.lookup id with
  | none => (registry, false)
  | some job => (registry.modify job fun object => { object with paused := true }, true)

/-- `resumeJobLocked`. -/
def resumeJobLocked (registry : Registry) (job : Nat) : Registry :=
  let registry := registry.modify job fun object => { object with paused := false }
  match registry.objects[job]? with
  | none => registry
  | some object =>
    match object.kind with
    | .cron spec =>
      let runAt := next spec registry.clock
      pushScheduleLocked (registry.modify job fun object => { object with runAt := runAt }) job runAt
    | .delay => pushScheduleLocked registry job object.runAt

/-- `Resume`. -/
def resume (registry : Registry) (id : JobID) : Registry × Bool :=
  match liveJob registry id with
  | none => (registry, false)
  | some job =>
    if (registry.objects[job]?).elim false fun object => object.paused then
      (resumeJobLocked registry job, true)
    else (registry, true)

/-- The calls that change the jobs. -/
inductive Call where
  | tick (elapsed : Nat)
  | addJob (id : JobID) (kind : JobKind) (runAt : Time) (options : JobOptions)
  | cancel (id : JobID)
  | pause (id : JobID)
  | resume (id : JobID)
deriving DecidableEq, Repr

/-- The registry after a call. -/
def call (registry : Registry) : Call → Registry
  | .tick elapsed => { registry with clock := registry.clock + elapsed }
  | .addJob id kind runAt options => (addJob registry id kind runAt options).1
  | .cancel id => (cancel registry id).1
  | .pause id => (pause registry id).1
  | .resume id => (resume registry id).1

/-- The registry as a machine. -/
def registryMachine : Machine Registry Call Unit := ⟨fun registry op => some (call registry op, ())⟩

end Plumego.Scheduler.Jobs
