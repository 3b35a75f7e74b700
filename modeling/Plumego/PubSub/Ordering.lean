/-
Module: Plumego.PubSub.Ordering
Purpose: Ordered publishing: calls of `PublishWithKey` on one ordered queue, which take
  a sequence number and then enqueue their message, beside the worker of the queue,
  which collects batches, checks the numbers and hands the messages to the broker.
Trusted boundary: the sequence counter and the channel are atomic; the ticker of the
  worker may fire at any time. The queue is not closed. No other queue shares the
  identifier under which the numbers are tracked. The payload is a type of its own.
Main exports: Message, Config, OrderedMessage, SequenceTracker, verifySequence, State, Action,
  machine, start
-/
import Mathlib.Data.Finset.Card
import Mathlib.Data.UInt
import Plumego.Go.Maps
import Plumego.Go.Numbers
import Plumego.Go.Time
import Plumego.Lib.Machine

namespace Plumego.PubSub

open Plumego.Go Plumego.Lib

/-- `Message`; a missing `Meta` is a nil map. -/
structure Message (Data : Type) where
  id : Bytes
  topic : Bytes
  type : Bytes
  time : Time
  data : Data
  metadata : Option (StringMap Bytes)
deriving DecidableEq

namespace Ordering

/-- `maxMissingSequences`. -/
def maxMissingSequences : Nat := 10000

/-- `MetaKeySequence`. -/
def metaKeySequence : Bytes := ascii "X-Message-Sequence"

/-- What `OrderingConfig` says about a queue and its worker. -/
structure Config where
  queueSize : Nat
  maxBatchSize : Int
  sequenceCheckEnabled : Bool
deriving DecidableEq, Repr

/-- `orderedMessage`. -/
structure OrderedMessage (Data : Type) where
  topic : Bytes
  key : Bytes
  message : Message Data
  sequence : UInt64
deriving DecidableEq

/-- `sequenceTracker`. -/
structure SequenceTracker where
  lastSequence : UInt64
  missing : Finset UInt64
deriving DecidableEq

/-- The loop of `verifySequence` that records a gap, up to the cap. -/
def recordMissing (missing : Finset UInt64) (expected : UInt64) (count : Nat) : Finset UInt64 :=
  (List.range count).foldl
    (fun recorded offset =>
      if maxMissingSequences ≤ recorded.card then recorded
      else insert (expected + UInt64.ofNat offset) recorded) missing

/-- `verifySequence`; no tracker for `ErrOutOfOrderMessage`. -/
def verifySequence (tracker : SequenceTracker) (sequence : UInt64) : Option SequenceTracker :=
  let expected := tracker.lastSequence + 1
  if sequence < expected then none
  else
    let missing := if expected < sequence then
        recordMissing tracker.missing expected (sequence.toNat - expected.toNat)
      else tracker.missing
    some ⟨sequence, missing.erase sequence⟩

variable {Data : Type}

/-- The stamp of `flushBatch`. -/
def stamp (ordered : OrderedMessage Data) : OrderedMessage Data :=
  let number := decimalDigits ordered.sequence.toNat
  { ordered with message := { ordered.message with
      metadata := some ((ordered.message.metadata.getD ∅).insert metaKeySequence number) } }

/-- One queue with its calls and its worker. -/
structure State (Data : Type) where
  /-- The counter of the queue. -/
  sequence : UInt64
  /-- The calls that have taken a number and not yet tried to enqueue. -/
  calls : List (OrderedMessage Data)
  /-- The channel. -/
  channel : List (OrderedMessage Data)
  /-- The batch that the worker collects. -/
  batch : List (OrderedMessage Data)
  /-- The messages that `flushBatch` still has to go through. -/
  flushing : List (OrderedMessage Data)
  tracker : SequenceTracker
  /-- The messages whose call returned nil. -/
  accepted : List (OrderedMessage Data)
  /-- The messages handed to the broker. -/
  published : List (OrderedMessage Data)
  /-- The messages that `verifySequence` refused. -/
  refused : List (OrderedMessage Data)
deriving DecidableEq

/-- A new queue. -/
def start : State Data := ⟨0, [], [], [], [], ⟨0, ∅⟩, [], [], []⟩

/-- What can happen next. -/
inductive Action (Data : Type) where
  /-- A call of `PublishWithKey` takes a number. -/
  | allocate (topic key : Bytes) (message : Message Data)
  /-- A call tries to enqueue its message, and returns. -/
  | enqueue (call : Nat)
  /-- The worker receives a message. -/
  | receive
  /-- The worker's ticker fires. -/
  | tick
  /-- One round of `flushBatch`. -/
  | flush
deriving DecidableEq

/-- One step of a call or of the worker. The worker goes on with its loop once
`flushBatch` is through. -/
def step (config : Config) (state : State Data) : Action Data → Option (State Data)
  | .allocate topic key message =>
    let sequence := state.sequence + 1
    some { state with
      sequence := sequence
      calls := state.calls ++ [⟨topic, key, message, sequence⟩] }
  | .enqueue call =>
    match state.calls[call]? with
    | none => none
    | some ordered =>
      -- A full channel takes the default branch, which returns an error.
      if state.channel.length < config.queueSize then
        some { state with
          calls := state.calls.eraseIdx call
          channel := state.channel ++ [ordered]
          accepted := state.accepted ++ [ordered] }
      else some { state with calls := state.calls.eraseIdx call }
  | .receive =>
    match state.flushing, state.channel with
    | [], ordered :: rest =>
      let batch := state.batch ++ [ordered]
      if config.maxBatchSize ≤ batch.length then
        some { state with channel := rest, batch := [], flushing := batch }
      else some { state with channel := rest, batch := batch }
    | _, _ => none
  | .tick =>
    match state.flushing with
    | [] => some { state with batch := [], flushing := state.batch }
    | _ :: _ => none
  | .flush =>
    match state.flushing with
    | [] => none
    | ordered :: rest =>
      if config.sequenceCheckEnabled then
        match verifySequence state.tracker ordered.sequence with
        | none => some { state with flushing := rest, refused := state.refused ++ [ordered] }
        | some tracker =>
          some { state with
            flushing := rest
            tracker := tracker
            published := state.published ++ [stamp ordered] }
      else some { state with flushing := rest, published := state.published ++ [stamp ordered] }

/-- The queue as a machine. -/
def machine (config : Config) : Machine (State Data) (Action Data) Unit where
  step state action := (step config state action).map fun next => (next, ())

end Ordering

end Plumego.PubSub
