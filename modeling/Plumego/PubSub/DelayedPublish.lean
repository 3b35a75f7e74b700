/-
Module: Plumego.PubSub.DelayedPublish
Purpose: Delayed publishing: calls that schedule and cancel messages beside the loop that publishes
  those that are due, over a heap by fire time and a map for cancelling.
Trusted boundary: each section under the mutex and each operation on the `sync.Map` is one step.
  `container/heap` is a library that swaps within the slice and keeps heaps; an index out of range
  is a panic, no result here. Fewer than 2^64 messages are scheduled, and instants do not overflow.
  The clock does not go back. A wake-up of the loop, by the timer or by a notification, may come at
  any moment. The scheduler is not closed, and the broker takes every message.
Main exports: DelayedMessage, Call, Loop, Event, State, initial, Action, step, machine
-/
import Plumego.Lib.IndexedHeap
import Plumego.Lib.Machine

namespace Plumego.PubSub.Delayed

open Plumego.Lib

variable {Msg : Type}

/-- `delayedMessage` without its place, which the heap keeps. -/
structure DelayedMessage (Msg : Type) where
  msg : Msg
  fireAt : Int
  id : Nat
deriving DecidableEq, Repr

/-- `Less` of `delayedHeap`. -/
def fireBefore (first second : DelayedMessage Msg) : Bool := first.fireAt < second.fireAt

-- The order is strict, so a library that looks for a least message each time will do.
instance : Inhabited (Library (@fireBefore Msg)) where
  default := scanning (by simp [fireBefore]) (by
    intro first second third before later
    simp only [fireBefore, decide_eq_true_eq] at *
    exact Int.lt_trans before later)

/-- Where a call is: `Schedule` before it reads the clock, before its section and before its
`Store`; `Cancel` before its `LoadAndDelete` and before its section; or over. -/
inductive Call (Msg : Type) where
  | stamping (msg : Msg) (delay : Int) (id : Nat)
  | pushing (dm : DelayedMessage Msg)
  | storing (dm : DelayedMessage Msg)
  | loading (id : Nat)
  | removing (id : Nat) (dm : DelayedMessage Msg)
  | finished
deriving DecidableEq, Repr

/-- Where `run` is: before its section, with what it read there, in its `select`, and in `fireNext`
before the section, before the `Delete` and before the `Publish`. -/
inductive Loop (Msg : Type) where
  | looking
  | looked (nextFire : Option Int)
  | waiting
  | firing
  | deleting (dm : DelayedMessage Msg)
  | publishing (dm : DelayedMessage Msg)
deriving DecidableEq, Repr

/-- What is seen from outside. -/
inductive Event (Msg : Type) where
  | published (dm : DelayedMessage Msg) (when : Int)
  | cancelled (id : Nat) (result : Bool)
deriving DecidableEq, Repr

/-- `messageScheduler` with the calls that run on it, the clock, and the events so far. -/
structure State (Msg : Type) where
  heap : Indexed (DelayedMessage Msg)
  nextID : Nat
  pending : Nat → Option (DelayedMessage Msg)
  calls : List (Call Msg)
  loop : Loop Msg
  now : Int
  log : List (Event Msg)

/-- `newMessageScheduler`. -/
def initial (now : Int) : State Msg := ⟨Indexed.empty, 0, fun _ => none, [], .looking, now, []⟩

/-- The zero `time.Time`. -/
def zeroTime : Int := -62135596800000000000

variable [DecidableEq Msg] (library : Library (@fireBefore Msg))

namespace State

variable (state : State Msg)

/-- A call goes on to another point. -/
def setCall (place : Nat) (call : Call Msg) : State Msg :=
  { state with calls := state.calls.set place call }

/-- An event. -/
def record (event : Event Msg) : State Msg := { state with log := state.log ++ [event] }

/-- The section of `Cancel`: the message is removed if it is in the heap where it says it is. -/
def cancelSection (id : Nat) (dm : DelayedMessage Msg) : Option (State Msg) :=
  let place := state.heap.index dm
  if 0 ≤ place ∧ place < state.heap.items.length ∧
      state.heap.items[place.toNat]? = some dm then do
    let (heap, _) ← state.heap.remove library place.toNat
    return { state with heap := heap }.record (.cancelled id true)
  else some (state.record (.cancelled id false))

/-- The next step of a call. -/
def advance (place : Nat) : Option (State Msg) :=
  match state.calls[place]? with
  | none | some .finished => some state
  | some (.stamping msg delay id) =>
    some (state.setCall place (.pushing ⟨msg, state.now + delay, id⟩))
  | some (.pushing dm) => do
      let heap ← state.heap.push library dm
      return { state with heap := heap }.setCall place (.storing dm)
  | some (.storing dm) =>
    some ({ state with pending := Function.update state.pending dm.id (some dm) }.setCall place
      .finished)
  | some (.loading id) =>
    match state.pending id with
    | none => some ((state.record (.cancelled id false)).setCall place .finished)
    | some dm =>
      some ({ state with pending := Function.update state.pending id none }.setCall place
        (.removing id dm))
  | some (.removing id dm) => do
      let next ← state.cancelSection library id dm
      return next.setCall place .finished

/-- The section of `fireNext`. -/
def fireSection : Option (State Msg) :=
  match state.heap.items[0]? with
  | none => some { state with loop := .looking }
  | some dm =>
    if state.now < dm.fireAt then some { state with loop := .looking }
    else do
      let (heap, _) ← state.heap.remove library 0
      return { state with heap := heap, loop := .deleting dm }

/-- The next step of the loop; `byTimer` says what wakes it. -/
def turn (byTimer : Bool) : Option (State Msg) :=
  match state.loop with
  | .looking => some { state with loop := .looked (state.heap.items[0]?.map (·.fireAt)) }
  | .looked none => some { state with loop := .waiting }
  | .looked (some nextFire) =>
    if nextFire ≠ zeroTime ∧ nextFire ≤ state.now then some { state with loop := .firing }
    else some { state with loop := .waiting }
  | .waiting => some { state with loop := if byTimer then .firing else .looking }
  | .firing => state.fireSection library
  | .deleting dm =>
    some { state with
      pending := Function.update state.pending dm.id none, loop := .publishing dm }
  | .publishing dm => some ({ state with loop := .looking }.record (.published dm state.now))

end State

/-- A call begins, a call or the loop takes a step, or time passes. -/
inductive Action (Msg : Type) where
  | schedule (msg : Msg) (delay : Int)
  | cancel (id : Nat)
  | advance (place : Nat)
  | turn (byTimer : Bool)
  | tick (nanoseconds : Nat)
deriving DecidableEq, Repr

/-- One action; one of a call that is over changes nothing. -/
def step (state : State Msg) : Action Msg → Option (State Msg × Unit)
  | .schedule msg delay =>
    some ({ state with
      nextID := state.nextID + 1
      calls := state.calls ++ [.stamping msg delay (state.nextID + 1)] }, ())
  | .cancel id => some ({ state with calls := state.calls ++ [.loading id] }, ())
  | .advance place => (state.advance library place).map fun next => (next, ())
  | .turn byTimer => (state.turn library byTimer).map fun next => (next, ())
  | .tick nanoseconds => some ({ state with now := state.now + nanoseconds }, ())

/-- The scheduler as a machine. -/
def machine : Machine (State Msg) (Action Msg) Unit := ⟨step library⟩

end Plumego.PubSub.Delayed
