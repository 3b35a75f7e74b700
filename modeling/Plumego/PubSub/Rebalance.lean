/-
Module: Plumego.PubSub.Rebalance
Purpose: How a consumer group asks for rebalances: calls of `triggerRebalance`, each after a
  change of the membership, cut at the sections under the rebalance mutex.
Trusted boundary: a section under `rebalanceMu` is one step, and so is a pass of `rebalance`,
  which holds the lock on the consumers. The context of the group is alive and no pass times
  out. What a pass computes from the consumers it has read is left out.
Main exports: Change, Phase, Call, State, Action, step, machine, start
-/
import Plumego.Go.Maps
import Plumego.Lib.Machine

namespace Plumego.PubSub.Rebalance

open Plumego.Go Plumego.Lib

/-- A change of the membership: a consumer joins with its topics, or leaves. -/
inductive Change where
  | join (consumerID : Bytes) (topics : List Bytes)
  | leave (consumerID : Bytes)
deriving DecidableEq, Repr

/-- The consumers of a group, with their topics. -/
abbrev Consumers := StringMap (List Bytes)

/-- The consumers after a change. -/
def Change.apply (consumers : Consumers) : Change → Consumers
  | .join consumerID topics => consumers.insert consumerID topics
  | .leave consumerID => consumers.erase consumerID

/-- The consumers after the changes of a new group. -/
def consumersAfter (changes : List Change) : Consumers := changes.foldl Change.apply ∅

/-- Where a call is. -/
inductive Phase where
  /-- The change is made, `triggerRebalance` is not called yet. -/
  | changed
  /-- At the top of the loop. -/
  | looping
  /-- The pending flag is reset, `rebalance` is next. -/
  | cleared
  /-- `rebalance` is done, the look at the pending flag is next. -/
  | rebalanced
  | returned
deriving DecidableEq, Repr

/-- The call runs the loop. -/
def Phase.runs : Phase → Bool
  | .looping | .cleared | .rebalanced => true
  | .changed | .returned => false

/-- A call, with the place of its change among all changes. -/
structure Call where
  place : Nat
  phase : Phase
deriving DecidableEq, Repr

/-- A group. -/
structure State where
  consumers : Consumers
  rebalanceRunning : Bool
  rebalancePending : Bool
  calls : List Call
  /-- All changes so far. -/
  changes : List Change
  /-- The consumers that the last completed pass read, and the changes made before it. -/
  lastRead : Option (Consumers × List Change)
deriving DecidableEq

/-- A new group. -/
def start : State := ⟨∅, false, false, [], [], none⟩

/-- What happens next. -/
inductive Action where
  /-- The membership changes, and a call is to follow. -/
  | change (change : Change)
  /-- The first section of `triggerRebalance`. -/
  | enter (call : Nat)
  /-- The section that resets the pending flag. -/
  | clear (call : Nat)
  /-- A pass of `rebalance`. -/
  | rebalance (call : Nat)
  /-- The section after the pass. -/
  | finish (call : Nat)
deriving DecidableEq, Repr

/-- The call goes on to a phase. -/
def State.move (state : State) (call : Nat) (place : Nat) (phase : Phase) : State :=
  { state with calls := state.calls.set call ⟨place, phase⟩ }

/-- One step. -/
def step (state : State) : Action → Option State
  | .change change =>
    some { state with
      consumers := change.apply state.consumers
      changes := state.changes ++ [change]
      calls := state.calls ++ [⟨state.changes.length, .changed⟩] }
  | .enter call =>
    match state.calls[call]? with
    | some ⟨place, .changed⟩ =>
      if state.rebalanceRunning then
        some { state.move call place .returned with rebalancePending := true }
      else some { state.move call place .looping with rebalanceRunning := true }
    | _ => none
  | .clear call =>
    match state.calls[call]? with
    | some ⟨place, .looping⟩ =>
      some { state.move call place .cleared with rebalancePending := false }
    | _ => none
  | .rebalance call =>
    match state.calls[call]? with
    | some ⟨place, .cleared⟩ =>
      some { state.move call place .rebalanced with
        lastRead := some (state.consumers, state.changes) }
    | _ => none
  | .finish call =>
    match state.calls[call]? with
    | some ⟨place, .rebalanced⟩ =>
      if state.rebalancePending then some (state.move call place .looping)
      else some { state.move call place .returned with rebalanceRunning := false }
    | _ => none

/-- The group as a machine. -/
def machine : Machine State Action Unit where
  step state action := (step state action).map fun next => (next, ())

end Plumego.PubSub.Rebalance
