/-
Module: Plumego.Webhook.DelayScheduler
Purpose: The delay scheduler of outbound webhooks: the loop of `Run` step by step,
  with its timer, its wake channel and the heap of delayed tasks, while `Schedule`
  calls go on beside it.
Trusted boundary: `container/heap` keeps the earliest task in front, so the heap is a
  list in the order of the due times. A timer is stopped, armed or has its tick in
  its channel; it fires once the clock has passed its deadline, as late as it
  likes. `flushDue` ignores the result of `Enqueue`, so the tasks given to it are
  recorded whatever the queue does with them. Contexts and the `stop` channel are
  not signalled.
Main exports: DelayedItem, Timer, Point, State, Action, nextWaitDuration, machine,
  start
-/
import Mathlib.Data.List.Sort
import Plumego.Go.Strings
import Plumego.Go.Time
import Plumego.Lib.Machine

namespace Plumego.Webhook.DelayScheduler

open Plumego.Go Plumego.Lib

/-- `delayedItem`: when a task is due, and the delivery that it is for. -/
structure DelayedItem where
  dueAt : Time
  task : Bytes
deriving DecidableEq, Repr

/-- `delayHeap`, in the order of the due times. -/
abbrev DelayHeap := List DelayedItem

/-- `heap.Push`. -/
def DelayHeap.push (heap : DelayHeap) (item : DelayedItem) : DelayHeap :=
  heap.orderedInsert (fun first second => first.dueAt ≤ second.dueAt) item

/-- `Peek`. -/
def DelayHeap.peek (heap : DelayHeap) : Option DelayedItem := heap.head?

/-- The timer of `Run`. -/
inductive Timer where
  | stopped
  | armed (deadline : Time)
  | fired
deriving DecidableEq, Repr

/-- Where `Run` is in its loop. -/
inductive Point where
  /-- About to call `nextWaitDuration`. -/
  | top
  /-- With the duration that it returned. -/
  | waited (nextWait : Int)
  /-- In the `select`. -/
  | selecting
  /-- In the loop of `flushDue`. -/
  | flushing
deriving DecidableEq, Repr

/-- The scheduler, the loop of `Run`, and the `Schedule` calls that have pushed their
task and not yet signalled it. -/
structure State where
  now : Time
  heap : DelayHeap
  wake : Bool
  timer : Timer
  point : Point
  signalling : Nat
  enqueued : List DelayedItem
deriving DecidableEq, Repr

/-- `Run` behind the lines that stop its new timer. -/
def start (now : Time) : State := ⟨now, [], false, .stopped, .top, 0, []⟩

/-- `nextWaitDuration`. -/
def nextWaitDuration (heap : DelayHeap) (now : Time) : Int :=
  match heap.peek with
  | none => 1000000000
  | some item => if item.dueAt ≤ now then 0 else timeSub item.dueAt now

/-- What can happen next. -/
inductive Action where
  /-- `Schedule` pushes a task. -/
  | schedule (item : DelayedItem)
  /-- `Schedule` sends to the wake channel, if it is empty. -/
  | signal
  /-- The clock goes on. -/
  | advance (amount : Nat)
  /-- The runtime puts the tick into the timer's channel. -/
  | expire
  /-- `Run` calls `nextWaitDuration`. -/
  | wait
  /-- `Run` resets the timer, if it has to wait, and enters the `select`. -/
  | arm
  /-- The `select` receives from the wake channel. -/
  | receiveWake
  /-- The `select` receives the tick. -/
  | receiveTick
  /-- One round of `flushDue`. -/
  | flush
deriving DecidableEq, Repr

/-- One step of the loop or of what goes on beside it. -/
def step (state : State) : Action → Option State
  | .schedule item =>
    some { state with heap := state.heap.push item, signalling := state.signalling + 1 }
  | .signal =>
    match state.signalling with
    | 0 => none
    | others + 1 => some { state with wake := true, signalling := others }
  | .advance amount => some { state with now := state.now + amount }
  | .expire =>
    match state.timer with
    | .armed deadline => if deadline ≤ state.now then some { state with timer := .fired } else none
    | _ => none
  | .wait =>
    if state.point = .top then
      some { state with point := .waited (nextWaitDuration state.heap state.now) }
    else none
  | .arm =>
    match state.point with
    | .waited nextWait =>
      some { state with
        timer := if 0 < nextWait then .armed (state.now + nextWait) else state.timer
        point := .selecting }
    | _ => none
  | .receiveWake =>
    -- The timer is stopped, and its channel drained if it had fired.
    if state.point = .selecting ∧ state.wake = true then
      some { state with wake := false, timer := .stopped, point := .top }
    else none
  | .receiveTick =>
    if state.point = .selecting ∧ state.timer = .fired then
      some { state with timer := .stopped, point := .flushing }
    else none
  | .flush =>
    if state.point = .flushing then
      match state.heap with
      | [] => some { state with point := .top }
      | item :: later =>
        if state.now < item.dueAt then some { state with point := .top }
        else some { state with heap := later, enqueued := state.enqueued ++ [item] }
    else none

/-- The scheduler as a machine. -/
def machine : Machine State Action Unit where
  step state action := (step state action).map fun next => (next, ())

end Plumego.Webhook.DelayScheduler
