/-
Module: Plumego.PubSub.RingBuffer
Purpose: The ring buffer of a subscription, with its two counters, and the bounded list that
  drops its oldest element, which it stands for.
Trusted boundary: each call runs under the mutex. The memory for the slots is there. An index out
  of range is a panic, no result here. The notification channel is left out.
Main exports: RingBuffer, newRingBuffer, push, pop, drain, close, machine, Fifo, Fifo.machine
-/
import Mathlib.Algebra.Group.Nat.Defs
import Plumego.Lib.Machine

namespace Plumego.PubSub.Ring

open Plumego.Lib

/-- `atomic.Int32` wraps around at 32 bits. -/
def wrapInt32 (value : Int) : Int := value.bmod (2 ^ 32)

/-- `ringBuffer`. -/
structure RingBuffer (Msg : Type) where
  buf : List Msg
  head : Nat
  tail : Nat
  count : Nat
  capacity : Nat
  closed : Bool
  atomicCount : Int
deriving DecidableEq, Repr

variable {Msg : Type} (zero : Msg)

/-- `newRingBuffer`. -/
def newRingBuffer (capacity : Int) : RingBuffer Msg :=
  let capacity := if capacity < 1 then 1 else capacity.toNat
  ⟨List.replicate capacity zero, 0, 0, 0, capacity, false, 0⟩

namespace RingBuffer

variable (ring : RingBuffer Msg)

/-- What `Push` on a full buffer and `Pop` do with the oldest message. -/
def removeOldest : Option (RingBuffer Msg × Msg) :=
  match ring.buf[ring.head]? with
  | none => none
  | some oldest => some ({ ring with
      buf := ring.buf.set ring.head zero
      head := (ring.head + 1) % ring.capacity
      count := ring.count - 1
      atomicCount := wrapInt32 (ring.atomicCount - 1) }, oldest)

/-- The part of `Push` that adds the message. -/
def store (msg : Msg) : Option (RingBuffer Msg) :=
  if ring.tail < ring.buf.length then
    some { ring with
      buf := ring.buf.set ring.tail msg
      tail := (ring.tail + 1) % ring.capacity
      count := ring.count + 1
      atomicCount := wrapInt32 (ring.atomicCount + 1) }
  else none

/-- `Push`, with the dropped message. -/
def push (msg : Msg) : Option (RingBuffer Msg × Option Msg) :=
  if ring.closed then some (ring, none)
  else if ring.count = ring.capacity then do
    let (smaller, dropped) ← ring.removeOldest zero
    let next ← smaller.store msg
    return (next, some dropped)
  else do
    let next ← ring.store msg
    return (next, none)

/-- `Pop`. -/
def pop : Option (RingBuffer Msg × Option Msg) :=
  if ring.count = 0 then some (ring, none)
  else do
    let (next, msg) ← ring.removeOldest zero
    return (next, some msg)

/-- The loop of `Drain`, from an offset on: the messages and the cleared slots. -/
def drainLoop : Nat → Nat → List Msg → Option (List Msg × List Msg)
  | 0, _, buf => some ([], buf)
  | rounds + 1, offset, buf =>
    match buf[(ring.head + offset) % ring.capacity]? with
    | none => none
    | some msg => do
        let (msgs, cleared) ← drainLoop rounds (offset + 1)
          (buf.set ((ring.head + offset) % ring.capacity) zero)
        return (msg :: msgs, cleared)

/-- `Drain`. -/
def drain : Option (RingBuffer Msg × List Msg) :=
  if ring.count = 0 then some (ring, [])
  else do
    let (msgs, cleared) ← ring.drainLoop zero ring.count 0 ring.buf
    return ({ ring with buf := cleared, head := 0, tail := 0, count := 0, atomicCount := 0 }, msgs)

/-- `Close`. -/
def close : RingBuffer Msg := { ring with closed := true }

/-- The messages in the buffer, oldest first. -/
def contents : List Msg :=
  (List.range ring.count).filterMap fun offset => ring.buf[(ring.head + offset) % ring.capacity]?

end RingBuffer

/-! ## Runs -/

/-- A call. -/
inductive Op (Msg : Type) where
  | push (msg : Msg)
  | pop
  | drain
  | close
deriving DecidableEq, Repr

/-- What a call returns. -/
inductive Out (Msg : Type) where
  | pushed (dropped : Option Msg)
  | popped (msg : Option Msg)
  | drained (msgs : List Msg)
  | closed
deriving DecidableEq, Repr

/-- A buffer, with the messages it accepted and those that have left it. -/
structure State (Msg : Type) where
  ring : RingBuffer Msg
  accepted : List Msg
  left : List Msg
deriving DecidableEq, Repr

/-- One call. -/
def step (state : State Msg) : Op Msg → Option (State Msg × Out Msg)
  | .push msg => do
      let (next, dropped) ← state.ring.push zero msg
      let accepted := if state.ring.closed then state.accepted else state.accepted ++ [msg]
      return (⟨next, accepted, state.left ++ dropped.toList⟩, .pushed dropped)
  | .pop => do
      let (next, msg) ← state.ring.pop zero
      return (⟨next, state.accepted, state.left ++ msg.toList⟩, .popped msg)
  | .drain => do
      let (next, msgs) ← state.ring.drain zero
      return (⟨next, state.accepted, state.left ++ msgs⟩, .drained msgs)
  | .close => some ({ state with ring := state.ring.close }, .closed)

/-- The buffer as a machine. -/
def machine : Machine (State Msg) (Op Msg) (Out Msg) := ⟨step zero⟩

/-- A new buffer. -/
def start (capacity : Int) : State Msg := ⟨newRingBuffer zero capacity, [], []⟩

/-! ## The list it stands for -/

/-- A list of messages that can be closed. -/
structure Fifo (Msg : Type) where
  items : List Msg
  closed : Bool
deriving DecidableEq, Repr

/-- One call on a list with room for `capacity` messages, which drops its oldest. -/
def Fifo.step (capacity : Nat) (fifo : Fifo Msg) : Op Msg → Fifo Msg × Out Msg
  | .push msg =>
    if fifo.closed then (fifo, .pushed none)
    else if fifo.items.length = capacity then
      ({ fifo with items := fifo.items.tail ++ [msg] }, .pushed fifo.items.head?)
    else ({ fifo with items := fifo.items ++ [msg] }, .pushed none)
  | .pop => ({ fifo with items := fifo.items.tail }, .popped fifo.items.head?)
  | .drain => ({ fifo with items := [] }, .drained fifo.items)
  | .close => ({ fifo with closed := true }, .closed)

/-- The list as a machine. -/
def Fifo.machine (capacity : Nat) : Machine (Fifo Msg) (Op Msg) (Out Msg) where
  step fifo op := some (fifo.step capacity op)

end Plumego.PubSub.Ring
