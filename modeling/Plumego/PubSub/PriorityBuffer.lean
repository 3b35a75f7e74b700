/-
Module: Plumego.PubSub.PriorityBuffer
Purpose: The priority buffer: the same messages in a heap by priority, for taking them out, and in
  a heap the other way round, for dropping one, each of which knows its places in both.
Trusted boundary: each call runs under the mutex. `container/heap` is a library that swaps within
  the slice and keeps heaps. Fewer than 2^64 messages are ever pushed. An index out of range is a
  panic, no result here. Closing and the notification channel are left out.
Main exports: PriorityMessage, PriorityBuffer, newPriorityBuffer, push, pop, drain, Op, Out,
  step, machine
-/
import Plumego.Lib.IndexedHeap
import Plumego.Lib.Machine

namespace Plumego.PubSub.Priority

open Plumego.Lib

variable {Msg : Type}

/-- `PriorityMessage` without its places, which the heaps keep. -/
structure PriorityMessage (Msg : Type) where
  message : Msg
  priority : Int
  sequence : Nat
deriving DecidableEq, Repr

/-- `Less` of `priorityQueue`. -/
def pqLess (first second : PriorityMessage Msg) : Bool :=
  if first.priority ≠ second.priority then first.priority < second.priority
  else first.sequence < second.sequence

/-- `Less` of `evictionQueue`. -/
def eqLess (first second : PriorityMessage Msg) : Bool :=
  if first.priority ≠ second.priority then first.priority > second.priority
  else first.sequence < second.sequence

/-- `PriorityBuffer`; `pq` keeps the `index` fields and `eq` the `rindex` fields. -/
structure PriorityBuffer (Msg : Type) where
  pq : Indexed (PriorityMessage Msg)
  eq : Indexed (PriorityMessage Msg)
  capacity : Nat
  sequence : Nat

/-- `NewPriorityBuffer`. -/
def newPriorityBuffer (capacity : Int) : PriorityBuffer Msg :=
  ⟨Indexed.empty, Indexed.empty, if capacity ≤ 0 then 16 else capacity.toNat, 0⟩

/-- The libraries behind the two heaps. -/
structure Heaps (Msg : Type) where
  pq : Library (@pqLess Msg)
  eq : Library (@eqLess Msg)

-- Both orders are strict, so a library that looks for a least item each time will do.
instance : Inhabited (Heaps Msg) where
  default := {
    pq := scanning (by simp [pqLess]) (by
      intro first second third less later
      unfold pqLess at *
      split_ifs at * <;> simp_all <;> omega)
    eq := scanning (by simp [eqLess]) (by
      intro first second third less later
      unfold eqLess at *
      split_ifs at * <;> simp_all <;> omega) }

variable [DecidableEq Msg] (heaps : Heaps Msg)

/-- `heap.Remove` at a place that was read from a message. -/
def removeAt {less : PriorityMessage Msg → PriorityMessage Msg → Bool} (library : Library less)
    (heap : Indexed (PriorityMessage Msg)) (place : Int) :
    Option (Indexed (PriorityMessage Msg) × PriorityMessage Msg) :=
  if 0 ≤ place then heap.remove library place.toNat else none

namespace PriorityBuffer

variable (buffer : PriorityBuffer Msg)

/-- The end of `Push`. -/
def insert (item : PriorityMessage Msg) : Option (PriorityBuffer Msg) := do
  let pq ← buffer.pq.push heaps.pq item
  let eq ← buffer.eq.push heaps.eq item
  return { buffer with pq := pq, eq := eq }

/-- `Push`, with the message that is dropped. -/
def push (msg : Msg) (priority : Int) : Option (PriorityBuffer Msg × Option Msg) :=
  let counted := { buffer with sequence := buffer.sequence + 1 }
  let item := ⟨msg, priority, buffer.sequence + 1⟩
  if buffer.capacity ≤ buffer.pq.items.length then
    match buffer.eq.items[0]? with
    | none => none
    | some worst =>
      if priority ≤ worst.priority then do
        let (eq, _) ← buffer.eq.remove heaps.eq 0
        let (pq, _) ← removeAt heaps.pq buffer.pq (buffer.pq.index worst)
        let next ← { counted with pq := pq, eq := eq }.insert heaps item
        return (next, some worst.message)
      else some (counted, some msg)
  else do
    let next ← counted.insert heaps item
    return (next, none)

/-- `Pop`. -/
def pop : Option (PriorityBuffer Msg × Option (PriorityMessage Msg)) :=
  if buffer.pq.items = [] then some (buffer, none)
  else do
    let (pq, item) ← buffer.pq.remove heaps.pq 0
    let (eq, _) ← removeAt heaps.eq buffer.eq (buffer.eq.index item)
    return ({ buffer with pq := pq, eq := eq }, some item)

/-- The loop of `Drain`. -/
def drainLoop : Nat → Indexed (PriorityMessage Msg) →
    Option (Indexed (PriorityMessage Msg) × List Msg)
  | 0, pq => some (pq, [])
  | rounds + 1, pq => do
      let (smaller, item) ← pq.remove heaps.pq 0
      let (final, msgs) ← drainLoop rounds smaller
      return (final, item.message :: msgs)

/-- `Drain`. -/
def drain : Option (PriorityBuffer Msg × List Msg) := do
  let (pq, msgs) ← drainLoop heaps buffer.pq.items.length buffer.pq
  return ({ buffer with pq := pq, eq := { buffer.eq with items := [] } }, msgs)

end PriorityBuffer

/-! ## Runs -/

/-- A call. -/
inductive Op (Msg : Type) where
  | push (msg : Msg) (priority : Int)
  | pop
  | drain
deriving DecidableEq, Repr

/-- What a call returns. -/
inductive Out (Msg : Type) where
  | pushed (dropped : Option Msg)
  | popped (item : Option (PriorityMessage Msg))
  | drained (msgs : List Msg)
deriving DecidableEq, Repr

/-- One call. -/
def step (buffer : PriorityBuffer Msg) : Op Msg → Option (PriorityBuffer Msg × Out Msg)
  | .push msg priority =>
    (buffer.push heaps msg priority).map fun (next, dropped) => (next, .pushed dropped)
  | .pop => (buffer.pop heaps).map fun (next, item) => (next, .popped item)
  | .drain => (buffer.drain heaps).map fun (next, msgs) => (next, .drained msgs)

/-- The buffer as a machine. -/
def machine : Machine (PriorityBuffer Msg) (Op Msg) (Out Msg) := ⟨step heaps⟩

end Plumego.PubSub.Priority
