/-
Module: Plumego.PubSub.OrderedClose
Purpose: Closing ordered publishing: any number of ordered queues with their calls and workers,
  beside the steps of `Close`, which cancels the context, waits for the workers and closes the
  broker.
Trusted boundary: as for ordered publishing. A call that has passed its check of the closed flag
  may take its number at any time. A `select` with several ready cases takes any of them.
Main exports: Worker, Queue, ClosePhase, State, Action, step, machine, start
-/
import Plumego.PubSub.Ordering

namespace Plumego.PubSub.Ordering.Closing

open Plumego.Lib

variable {Data : Type}

/-- Where the worker of a queue is. -/
inductive Worker where
  | running
  /-- It has seen that the context is done, and flushes its batch. -/
  | stopping
  | stopped
deriving DecidableEq, Repr

/-- An ordered queue with its worker. -/
structure Queue (Data : Type) where
  core : Ordering.State Data
  worker : Worker
  /-- How many messages had been accepted when `Close` began. -/
  owed : Nat
deriving DecidableEq

/-- How far `Close` is. -/
inductive ClosePhase where
  | notCalled
  | begun
  | cancelled
  | brokerClosed
deriving DecidableEq, Repr

/-- All queues. -/
structure State (Data : Type) where
  queues : List (Queue Data)
  phase : ClosePhase
deriving DecidableEq

/-- Nothing published yet. -/
def start : State Data := ⟨[], .notCalled⟩

/-- What happens next. -/
inductive Action (Data : Type) where
  /-- A call makes a queue and starts its worker. -/
  | newQueue
  /-- A call or the worker of a queue takes a step. -/
  | queue (index : Nat) (action : Ordering.Action Data)
  /-- A call finds the context done, and is refused. -/
  | refuse (index call : Nat)
  /-- `Close` sets the closed flag. -/
  | beginClose
  /-- `Close` cancels the context. -/
  | cancel
  /-- A worker finds the context done. -/
  | stop (index : Nat)
  /-- A worker has flushed its last batch. -/
  | exit (index : Nat)
  /-- `Close` has waited for all workers, and closes the broker. -/
  | closeBroker
deriving DecidableEq

/-- The worker may take this step of its queue. -/
def Worker.allows (worker : Worker) : Ordering.Action Data → Bool
  | .allocate .. | .enqueue _ => true
  | .receive | .tick => worker = .running
  | .flush => worker ≠ .stopped

/-- One step. -/
def step (config : Config) (state : State Data) : Action Data → Option (State Data)
  | .newQueue =>
    if state.phase = .brokerClosed then none
    else some { state with queues := state.queues ++ [⟨Ordering.start, .running, 0⟩] }
  | .queue index action =>
    match state.queues[index]? with
    | none => none
    | some queue =>
      if queue.worker.allows action then
        (Ordering.step config queue.core action).map fun core =>
          { state with queues := state.queues.set index { queue with core := core } }
      else none
  | .refuse index call =>
    match state.queues[index]?, state.phase with
    | some queue, .cancelled =>
      let core := { queue.core with calls := queue.core.calls.eraseIdx call }
      some { state with queues := state.queues.set index { queue with core := core } }
    | _, _ => none
  | .beginClose =>
    if state.phase = .notCalled then
      some ⟨state.queues.map fun queue => { queue with owed := queue.core.accepted.length },
        .begun⟩
    else none
  | .cancel => if state.phase = .begun then some { state with phase := .cancelled } else none
  | .stop index =>
    match state.queues[index]?, state.phase with
    | some ⟨core, .running, owed⟩, .cancelled =>
      match core.flushing with
      | [] =>
        -- What is still in the channel stays there.
        let core := { core with batch := [], flushing := core.batch }
        some { state with queues := state.queues.set index ⟨core, .stopping, owed⟩ }
      | _ :: _ => none
    | _, _ => none
  | .exit index =>
    match state.queues[index]? with
    | some ⟨core, .stopping, owed⟩ =>
      match core.flushing with
      | [] => some { state with queues := state.queues.set index ⟨core, .stopped, owed⟩ }
      | _ :: _ => none
    | _ => none
  | .closeBroker =>
    if state.phase = .cancelled ∧ ∀ queue ∈ state.queues, queue.worker = .stopped then
      some { state with phase := .brokerClosed }
    else none

/-- The queues as a machine. -/
def machine (config : Config) : Machine (State Data) (Action Data) Unit where
  step state action := (step config state action).map fun next => (next, ())

end Plumego.PubSub.Ordering.Closing
