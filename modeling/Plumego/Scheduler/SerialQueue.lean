/-
Module: Plumego.Scheduler.SerialQueue
Purpose: One job of the scheduler with the policy `SerialQueue`: the run loop that dispatches it, the
  workers that execute it and the flags they share, as one state machine over every interleaving.
Trusted boundary: the scheduler is open, the work channel is never full, and the job is neither paused
  nor cancelled. Each load, store, swap and locked section is one step, and so is the handling of a
  failure. Of an item in the schedule queue there is only whether it is due at once; an item that is
  due later may come due at any time. `TriggerNow` may always be called.
Main exports: SerialConfig, Phase, Dispatcher, SerialJob, SerialOp, settle, serialStep, serialMachine
-/
import Plumego.Lib.Machine

namespace Plumego.Scheduler.Serial

open Plumego.Lib

/-- `jobKind`. -/
inductive Kind where
  | cron
  | delay
deriving DecidableEq, Repr

/-- When an item of the schedule queue is due. -/
inductive Due where
  | now
  | later
deriving DecidableEq, Repr

/-- What is read of the options of the job. -/
structure SerialConfig where
  kind : Kind
  maxRuns : Int
  maxAttempts : Int
  retriesAtOnce : Bool
deriving DecidableEq, Repr

/-- Where an execution is: its request is in the work channel, its function runs, it has cleared the
flag `running`, or it goes to schedule the next run. -/
inductive Phase where
  | queued
  | executing
  | released (succeeded : Bool)
  | rescheduling
deriving DecidableEq, Repr

/-- Where the run loop is: it has taken an item of the job off the queue, or has found it running and
goes to set the flag `pending`. -/
inductive Dispatcher where
  | idle
  | begun
  | refused
deriving DecidableEq, Repr

/-- The job. `item` is its item of the current version in the schedule queue, and `triggered` counts
those without a version. No step reads `owed`: a dispatch found the job running, and no request
was made since. -/
structure SerialJob where
  running : Bool
  pending : Bool
  dispatcher : Dispatcher
  executions : List Phase
  triggered : Nat
  item : Option Due
  nextAttempt : Int
  runCount : Int
  owed : Bool
deriving DecidableEq, Repr

/-- The job as it was added. -/
def added : SerialJob where
  running := false
  pending := false
  dispatcher := .idle
  executions := []
  triggered := 0
  item := some .later
  nextAttempt := 1
  runCount := 0
  owed := false

/-- What happens next. -/
inductive SerialOp where
  | triggerNow
  | popTriggered
  | popItem
  | compareAndSwap
  | storePending
  | start (index : Nat)
  | finish (index : Nat) (succeeded : Bool)
  | settle (index : Nat)
  | reschedule (index : Nat)
deriving DecidableEq, Repr

/-- `TriggerNow`. -/
def triggerNow (config : SerialConfig) (job : SerialJob) : SerialJob :=
  match config.kind with
  | .cron => { job with triggered := job.triggered + 1 }
  | .delay => { job with item := some .now }

/-- `dispatch`, up to where the request is sent or the flag is found set. -/
def compareAndSwap (job : SerialJob) : SerialJob :=
  if job.running then { job with dispatcher := .refused, owed := true }
  else
    { job with
      running := true
      dispatcher := .idle
      executions := job.executions ++ [.queued]
      owed := false }

/-- The run is the last one that the options allow. -/
def maxRunsReached (config : SerialConfig) (job : SerialJob) : Bool :=
  decide (0 < config.maxRuns) && decide (config.maxRuns ≤ job.runCount + 1)

/-- The locked section of `execute` after a success. -/
def settleSuccess (config : SerialConfig) (job : SerialJob) (index : Nat) : SerialJob :=
  let last := maxRunsReached config job
  { job with
    pending := false
    nextAttempt := 1
    runCount := job.runCount + 1
    item := if job.pending && !last && !job.running then some .now else job.item
    executions :=
      if config.kind = .cron ∧ !job.pending ∧ !last then job.executions.set index .rescheduling
      else job.executions.eraseIdx index }

/-- `handleFailure`. -/
def handleFailure (config : SerialConfig) (job : SerialJob) (index : Nat) : SerialJob :=
  if config.maxAttempts ≤ 1 ∨ config.maxAttempts ≤ job.nextAttempt then
    { job with
      executions :=
        if config.kind = .cron then job.executions.set index .rescheduling
        else job.executions.eraseIdx index }
  else
    { job with
      nextAttempt := job.nextAttempt + 1
      item := some (if config.retriesAtOnce then .now else .later)
      executions := job.executions.eraseIdx index }

/-- One step; `none` where it is not the turn of the run loop or the execution. -/
def serialStep (config : SerialConfig) (job : SerialJob) : SerialOp → Option SerialJob
  | .triggerNow => some (triggerNow config job)
  | .popTriggered =>
    if job.dispatcher = .idle ∧ 0 < job.triggered then
      some { job with dispatcher := .begun, triggered := job.triggered - 1 }
    else none
  | .popItem =>
    if job.dispatcher = .idle ∧ job.item.isSome then
      some { job with dispatcher := .begun, item := none }
    else none
  | .compareAndSwap => if job.dispatcher = .begun then some (compareAndSwap job) else none
  | .storePending =>
    if job.dispatcher = .refused then some { job with dispatcher := .idle, pending := true } else none
  | .start index =>
    if job.executions[index]? = some .queued then
      some { job with executions := job.executions.set index .executing }
    else none
  | .finish index succeeded =>
    if job.executions[index]? = some .executing then
      some { job with
        running := false
        executions := job.executions.set index (.released succeeded) }
    else none
  | .settle index =>
    if job.executions[index]? = some (.released true) then some (settleSuccess config job index)
    else if job.executions[index]? = some (.released false) then some (handleFailure config job index)
    else none
  | .reschedule index =>
    if job.executions[index]? = some .rescheduling then
      some { job with item := some .later, executions := job.executions.eraseIdx index }
    else none

/-- The job as a machine. -/
def serialMachine (config : SerialConfig) : Machine SerialJob SerialOp Unit where
  step := fun job op => (serialStep config job op).map fun next => (next, ())

end Plumego.Scheduler.Serial
