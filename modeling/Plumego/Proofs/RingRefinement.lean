/-
Module: Plumego.Proofs.RingRefinement
Purpose: The ring buffer refines the bounded list that drops its oldest element; its 32-bit
  counter agrees with it as long as the capacity fits into 32 bits.
Trusted boundary: as for the ring buffer.
Main exports: Represents, step_related, Faithful, ring_refines_fifo_iff
-/
import Mathlib.Data.Nat.ModEq
import Plumego.PubSub.RingBuffer

namespace Plumego.PubSub.Ring

open Plumego.Lib

variable {Msg : Type} {zero : Msg} {ring : RingBuffer Msg} {items : List Msg}

/-- The slots from the head on, around the end of the array, hold the items. -/
structure Represents (ring : RingBuffer Msg) (items : List Msg) : Prop where
  size : ring.buf.length = ring.capacity
  head : ring.head < ring.capacity
  fits : items.length ≤ ring.capacity
  count : ring.count = items.length
  tail : ring.tail = (ring.head + items.length) % ring.capacity
  cells : ∀ offset msg, items[offset]? = some msg →
    ring.buf[(ring.head + offset) % ring.capacity]? = some msg
  atomic : ring.atomicCount = wrapInt32 items.length

/-- Offsets below the capacity reach different slots. -/
theorem slot_injective {head first second capacity : Nat} (firstLess : first < capacity)
    (secondLess : second < capacity)
    (same : (head + first) % capacity = (head + second) % capacity) : first = second := by
  have congruent : Nat.ModEq capacity first second := Nat.ModEq.add_left_cancel' head same
  rw [Nat.ModEq, Nat.mod_eq_of_lt firstLess, Nat.mod_eq_of_lt secondLess] at congruent
  exact congruent

theorem wrapInt32_add (count : Int) (change : Int) :
    wrapInt32 (wrapInt32 count + change) = wrapInt32 (count + change) := by
  simp only [wrapInt32, Int.bmod_add_bmod]

theorem represents_new (zero : Msg) (capacity : Int) :
    Represents (newRingBuffer zero capacity) [] where
  size := List.length_replicate
  head := by
    simp only [newRingBuffer]
    split <;> omega
  fits := Nat.zero_le _
  count := rfl
  tail := by simp [newRingBuffer]
  cells := by simp
  atomic := by simp [newRingBuffer, wrapInt32]

/-- Taking out the oldest message. -/
theorem Represents.removeOldest (zero : Msg) {first : Msg}
    (represents : Represents ring (first :: items)) :
    ∃ next, ring.removeOldest zero = some (next, first) ∧ Represents next items ∧
      next.capacity = ring.capacity ∧ next.closed = ring.closed := by
  have oldest : ring.buf[ring.head]? = some first := by
    have cell := represents.cells 0 first rfl
    rwa [Nat.add_zero, Nat.mod_eq_of_lt represents.head] at cell
  have room := represents.fits
  rw [List.length_cons] at room
  have shifted : ∀ offset, ((ring.head + 1) % ring.capacity + offset) % ring.capacity =
      (ring.head + (offset + 1)) % ring.capacity := by
    intro offset
    rw [Nat.mod_add_mod, Nat.add_right_comm, Nat.add_assoc]
  refine ⟨{ ring with
      buf := ring.buf.set ring.head zero
      head := (ring.head + 1) % ring.capacity
      count := ring.count - 1
      atomicCount := wrapInt32 (ring.atomicCount - 1) },
    by simp only [RingBuffer.removeOldest, oldest], ?_, rfl, rfl⟩
  exact {
    size := by simp [represents.size]
    head := Nat.mod_lt _ (by omega)
    fits := by dsimp only; omega
    count := by simp [represents.count]
    tail := by
      dsimp only
      rw [shifted, represents.tail, List.length_cons]
    cells := by
      intro offset msg found
      have inside := (List.getElem?_eq_some_iff.mp found).1
      dsimp only
      rw [shifted, List.getElem?_set_ne]
      · exact represents.cells (offset + 1) msg found
      · intro same
        have zeroth : (ring.head + 0) % ring.capacity = (ring.head + (offset + 1)) % ring.capacity := by
          rw [Nat.add_zero, Nat.mod_eq_of_lt represents.head]
          exact same
        exact absurd (slot_injective (by omega) (by omega) zeroth) (by omega)
    atomic := by
      dsimp only
      rw [represents.atomic, sub_eq_add_neg, wrapInt32_add, List.length_cons]
      congr 1
      omega }

/-- Adding a message where there is room. -/
theorem Represents.store (represents : Represents ring items)
    (room : items.length < ring.capacity) (msg : Msg) :
    ∃ next, ring.store msg = some next ∧ Represents next (items ++ [msg]) ∧
      next.capacity = ring.capacity ∧ next.closed = ring.closed := by
  have inside : ring.tail < ring.buf.length := by
    rw [represents.size, represents.tail]
    exact Nat.mod_lt _ (by omega)
  refine ⟨_, if_pos inside, ?_, rfl, rfl⟩
  exact {
    size := by simp [represents.size]
    head := represents.head
    fits := by
      simp only [List.length_append, List.length_singleton]
      omega
    count := by simp [represents.count]
    tail := by
      simp only [List.length_append, List.length_singleton]
      rw [represents.tail, Nat.mod_add_mod, Nat.add_assoc]
    cells := by
      intro offset found isAt
      dsimp only
      by_cases old : offset < items.length
      · rw [List.getElem?_append_left old] at isAt
        rw [List.getElem?_set_ne]
        · exact represents.cells offset found isAt
        · rw [represents.tail]
          intro same
          exact absurd (slot_injective room (by omega) same) (by omega)
      · rw [List.getElem?_append_right (by omega), List.getElem?_singleton] at isAt
        split at isAt
        · cases isAt
          have last : offset = items.length := by omega
          rw [last, ← represents.tail, List.getElem?_set_self inside]
        · cases isAt
    atomic := by
      dsimp only
      rw [represents.atomic, wrapInt32_add, List.length_append, List.length_singleton]
      rfl }

/-- The loop of `Drain` returns what its slots hold. -/
theorem drainLoop_eq (zero : Msg) {offset : Nat} {buf : List Msg} (size : buf.length = ring.capacity)
    (fits : offset + items.length ≤ ring.capacity)
    (cells : ∀ index msg, items[index]? = some msg →
      buf[(ring.head + (offset + index)) % ring.capacity]? = some msg) :
    ∃ cleared, ring.drainLoop zero items.length offset buf = some (items, cleared) ∧
      cleared.length = ring.capacity := by
  induction items generalizing offset buf with
  | nil => exact ⟨buf, rfl, size⟩
  | cons first rest ih =>
    rw [List.length_cons] at fits
    have cell := cells 0 first rfl
    rw [Nat.add_zero] at cell
    have restCells : ∀ index msg, rest[index]? = some msg →
        (buf.set ((ring.head + offset) % ring.capacity) zero)[(ring.head +
          (offset + 1 + index)) % ring.capacity]? = some msg := by
      intro index msg found
      have inside := (List.getElem?_eq_some_iff.mp found).1
      have later := cells (index + 1) msg found
      rw [List.getElem?_set_ne]
      · rwa [show offset + 1 + index = offset + (index + 1) by omega]
      · intro same
        exact absurd (slot_injective (by omega) (by omega) same) (by omega)
    obtain ⟨cleared, looped, length⟩ :=
      ih (by simpa using size) (by omega) restCells
    refine ⟨cleared, ?_, length⟩
    simp only [List.length_cons, RingBuffer.drainLoop, cell, looped]
    rfl

/-- The executable view of the contents. -/
theorem Represents.contents (represents : Represents ring items) : ring.contents = items := by
  have reads : ∀ known : List Msg, ∀ base,
      (∀ offset msg, known[offset]? = some msg →
        ring.buf[(ring.head + (base + offset)) % ring.capacity]? = some msg) →
      (List.range' base known.length).filterMap
        (fun offset => ring.buf[(ring.head + offset) % ring.capacity]?) = known := by
    intro known
    induction known with
    | nil => intro base cells; rfl
    | cons first rest ih =>
      intro base cells
      have cell := cells 0 first rfl
      rw [Nat.add_zero] at cell
      have later := ih (base + 1) fun offset msg found => by
        rw [Nat.add_assoc, Nat.add_comm 1]
        exact cells (offset + 1) msg found
      simp only [List.length_cons, List.range'_succ, List.filterMap_cons, cell, later]
  rw [RingBuffer.contents, represents.count, List.range_eq_range']
  exact reads items 0 fun offset msg found => by
    rw [Nat.zero_add]
    exact represents.cells offset msg found

/-! ## Steps -/

/-- A buffer and the list it stands for. -/
structure Related (capacity : Nat) (state : State Msg) (fifo : Fifo Msg) : Prop where
  represents : Represents state.ring fifo.items
  capacity : state.ring.capacity = capacity
  closed : state.ring.closed = fifo.closed
  accepted : state.accepted = state.left ++ fifo.items

variable {capacity : Nat} {state : State Msg} {fifo : Fifo Msg}

/-- A call on both gives the same result, and they still belong together. -/
def Follows (zero : Msg) (capacity : Nat) (state : State Msg) (fifo : Fifo Msg) (op : Op Msg) :
    Prop :=
  ∃ next, step zero state op = some (next, (fifo.step capacity op).2) ∧
    Related capacity next (fifo.step capacity op).1

theorem follows_push (related : Related capacity state fifo) (msg : Msg) :
    Follows zero capacity state fifo (.push msg) := by
  obtain ⟨represents, capacityEq, closedEq, accepted⟩ := related
  obtain ⟨items, closed⟩ := fifo
  dsimp only at represents closedEq accepted
  cases closed with
  | true =>
    refine ⟨⟨state.ring, state.accepted, state.left ++ []⟩, ?_, ?_⟩
    · simp [step, RingBuffer.push, closedEq, Fifo.step]
    · exact ⟨represents, capacityEq, closedEq, by simpa [Fifo.step] using accepted⟩
  | false =>
    by_cases full : items.length = capacity
    · cases items with
      | nil =>
        have bound := represents.head
        rw [List.length_nil] at full
        omega
      | cons first rest =>
        obtain ⟨smaller, removed, represents', capacity', closed'⟩ :=
          represents.removeOldest zero
        obtain ⟨next, stored, represents'', capacity'', closed''⟩ :=
          represents'.store (by rw [capacity', capacityEq, ← full]; simp) msg
        have isFull : state.ring.count = state.ring.capacity := by
          rw [represents.count, full, capacityEq]
        refine ⟨⟨next, state.accepted ++ [msg], state.left ++ [first]⟩, ?_, ?_⟩
        · simp [step, RingBuffer.push, closedEq, isFull, removed, stored, Fifo.step, full]
        · simp only [Fifo.step, Bool.false_eq_true, if_false, full, if_true]
          exact ⟨represents'', by rw [capacity'', capacity', capacityEq],
            by rw [closed'', closed', closedEq], by simp [accepted]⟩
    · have room : items.length < state.ring.capacity := by
        have atMost := represents.fits
        omega
      obtain ⟨next, stored, represents', capacity', closed'⟩ := represents.store room msg
      have notFull : ¬ state.ring.count = state.ring.capacity := by
        rw [represents.count]
        omega
      refine ⟨⟨next, state.accepted ++ [msg], state.left ++ []⟩, ?_, ?_⟩
      · simp [step, RingBuffer.push, closedEq, notFull, stored, Fifo.step, full]
      · simp only [Fifo.step, Bool.false_eq_true, if_false, full]
        exact ⟨represents', by rw [capacity', capacityEq], by rw [closed', closedEq],
          by simp [accepted]⟩

theorem follows_pop (related : Related capacity state fifo) :
    Follows zero capacity state fifo .pop := by
  obtain ⟨represents, capacityEq, closedEq, accepted⟩ := related
  obtain ⟨items, closed⟩ := fifo
  dsimp only at represents closedEq accepted
  cases items with
  | nil =>
    have none : state.ring.count = 0 := represents.count
    refine ⟨⟨state.ring, state.accepted, state.left ++ []⟩, ?_, ?_⟩
    · simp [step, RingBuffer.pop, none, Fifo.step]
    · exact ⟨represents, capacityEq, closedEq, by simpa [Fifo.step] using accepted⟩
  | cons first rest =>
    obtain ⟨next, removed, represents', capacity', closed'⟩ :=
      represents.removeOldest zero
    have some : state.ring.count ≠ 0 := by
      rw [represents.count]
      simp
    refine ⟨⟨next, state.accepted, state.left ++ [first]⟩, ?_, ?_⟩
    · simp [step, RingBuffer.pop, some, removed, Fifo.step]
    · exact ⟨represents', by rw [capacity', capacityEq], closed'.trans closedEq,
        by simp [Fifo.step, accepted]⟩

theorem follows_drain (related : Related capacity state fifo) :
    Follows zero capacity state fifo .drain := by
  obtain ⟨represents, capacityEq, closedEq, accepted⟩ := related
  have positive := Nat.lt_of_le_of_lt (Nat.zero_le _) represents.head
  by_cases none : state.ring.count = 0
  · have empty : fifo.items = [] := by
      rw [represents.count] at none
      exact List.eq_nil_of_length_eq_zero none
    refine ⟨⟨state.ring, state.accepted, state.left ++ []⟩, ?_, ?_⟩
    · simp [step, RingBuffer.drain, none, Fifo.step, empty]
    · refine ⟨?_, capacityEq, closedEq, by simpa [Fifo.step, empty] using accepted⟩
      rwa [empty] at represents
  · obtain ⟨cleared, looped, length⟩ := drainLoop_eq zero
      represents.size (by rw [Nat.zero_add]; exact represents.fits) (by
        intro index msg found
        rw [Nat.zero_add]
        exact represents.cells index msg found)
    rw [← represents.count] at looped
    refine ⟨⟨{ state.ring with buf := cleared, head := 0, tail := 0, count := 0, atomicCount := 0 },
      state.accepted, state.left ++ fifo.items⟩, ?_, ?_⟩
    · simp [step, RingBuffer.drain, none, looped, Fifo.step]
    · refine ⟨?_, capacityEq, closedEq, by simpa [Fifo.step] using accepted⟩
      exact {
        size := length
        head := positive
        fits := Nat.zero_le _
        count := rfl
        tail := by simp [Fifo.step]
        cells := by simp [Fifo.step]
        atomic := by simp [Fifo.step, wrapInt32] }

theorem follows (zero : Msg) (related : Related capacity state fifo) (op : Op Msg) :
    Follows zero capacity state fifo op := by
  cases op with
  | push msg => exact follows_push related msg
  | pop => exact follows_pop related
  | drain => exact follows_drain related
  | close =>
    obtain ⟨represents, capacityEq, closedEq, accepted⟩ := related
    refine ⟨{ state with ring := state.ring.close }, rfl, ?_⟩
    exact ⟨⟨represents.size, represents.head, represents.fits, represents.count,
      represents.tail, represents.cells, represents.atomic⟩, capacityEq, rfl, accepted⟩

/-! ## Runs -/

/-- The number of slots. -/
def slots (capacity : Int) : Nat := if capacity < 1 then 1 else capacity.toNat

theorem related_start (zero : Msg) (capacity : Int) :
    Related (slots capacity) (start zero capacity) ⟨[], false⟩ :=
  ⟨represents_new zero capacity, rfl, rfl, rfl⟩

/-- What is to hold of a buffer at every point. -/
structure Faithful (state : State Msg) : Prop where
  accepted : state.accepted = state.left ++ state.ring.contents
  mirrored : (state.ring.count : Int) = state.ring.atomicCount
  bounded : state.ring.count ≤ state.ring.capacity

/-- The buffer behaves as the list, and is faithful at every point. -/
def RefinesFifo (zero : Msg) (capacity : Int) : Prop :=
  ∀ ops, (machine zero).trace (start zero capacity) ops =
      (Fifo.machine (slots capacity)).trace ⟨[], false⟩ ops ∧
    ∀ state, (machine zero).Reaches (start zero capacity) ops state → Faithful state

theorem trace_eq (zero : Msg) (capacity : Int) (ops : List (Op Msg)) :
    (machine zero).trace (start zero capacity) ops =
      (Fifo.machine (slots capacity)).trace ⟨[], false⟩ ops := by
  have steps : ∀ state fifo op, True → Related (slots capacity) state fifo →
      Machine.StepsTogether (machine zero) (Fifo.machine (slots capacity))
        (Related (slots capacity)) state fifo op := by
    intro state fifo op _ related
    obtain ⟨next, stepped, related'⟩ := follows zero related op
    exact Or.inr ⟨next, _, _, stepped, rfl, related'⟩
  exact Machine.trace_eq_of_simulation steps (related_start zero capacity) fun _ _ => trivial

theorem related_of_reaches {capacity : Int} {ops : List (Op Msg)} {state : State Msg}
    (reached : (machine zero).Reaches (start zero capacity) ops state) :
    ∃ fifo, Related (slots capacity) state fifo := by
  have keeps : ∀ before op after out, (∃ fifo, Related (slots capacity) before fifo) → True →
      (machine zero).step before op = some (after, out) →
      ∃ fifo, Related (slots capacity) after fifo := by
    rintro before op after out ⟨fifo, related⟩ _ stepped
    obtain ⟨next, stepped', related'⟩ := follows zero related op
    obtain ⟨rfl, -⟩ := Prod.mk.inj (Option.some.inj (stepped'.symm.trans stepped))
    exact ⟨_, related'⟩
  exact Machine.reaches_invariant keeps ⟨_, related_start zero capacity⟩
    (Machine.meets_of_forall (fun _ _ _ => trivial) _) reached

/-- A number of messages is its own 32-bit reading below `2 ^ 31` only. -/
theorem wrapInt32_eq_self_iff (count : Nat) (atMost : count ≤ 2 ^ 31) :
    (count : Int) = wrapInt32 count ↔ count < 2 ^ 31 := by
  rw [wrapInt32, Int.bmod_def]
  split <;> omega

/-- Pushing into a buffer with room fills it one by one. -/
theorem filled_of_pushes (zero : Msg) (capacity : Int) (msg : Msg) (count : Nat)
    (room : count ≤ slots capacity) :
    ∃ state fifo, (machine zero).run (start zero capacity)
        (List.replicate count (.push msg)) = some state ∧
      Related (slots capacity) state fifo ∧ fifo.items.length = count ∧ fifo.closed = false := by
  induction count with
  | zero => exact ⟨_, _, rfl, related_start zero capacity, rfl, rfl⟩
  | succ count ih =>
    obtain ⟨state, fifo, ran, related, length, isOpen⟩ := ih (by omega)
    obtain ⟨next, stepped, related'⟩ := follows zero related (.push msg)
    have appended : fifo.step (slots capacity) (.push msg) =
        ({ fifo with items := fifo.items ++ [msg] }, .pushed none) := by
      simp only [Fifo.step, isOpen, Bool.false_eq_true, if_false, length]
      rw [if_neg (by omega)]
    rw [appended] at stepped related'
    refine ⟨next, _, ?_, related', by simp [length], isOpen⟩
    rw [List.replicate_succ', Machine.run_append, ran]
    simp [machine, Machine.run, stepped]

/-- The ring buffer is the bounded list that drops its oldest message, at every point of every run,
exactly when its capacity fits into the 32-bit counter. -/
theorem ring_refines_fifo_iff (zero : Msg) (capacity : Int) :
    RefinesFifo zero capacity ↔ capacity < 2 ^ 31 := by
  constructor
  · intro refines
    by_contra large
    have positive : ¬ capacity < 1 := by omega
    have room : 2 ^ 31 ≤ slots capacity := by
      rw [slots, if_neg positive]
      omega
    obtain ⟨state, fifo, ran, related, length, -⟩ :=
      filled_of_pushes zero capacity zero (2 ^ 31) room
    have faithful := (refines _).2 state ⟨_, List.prefix_refl _, ran⟩
    have mirrored := faithful.mirrored
    rw [related.represents.count, related.represents.atomic, length,
      wrapInt32_eq_self_iff _ (Nat.le_refl _)] at mirrored
    exact absurd mirrored (Nat.lt_irrefl _)
  · intro small ops
    refine ⟨trace_eq zero capacity ops, fun state reached => ?_⟩
    obtain ⟨fifo, related⟩ := related_of_reaches reached
    have represents := related.represents
    have atMost : fifo.items.length < 2 ^ 31 := by
      have fits := represents.fits
      rw [related.capacity, slots] at fits
      split at fits <;> omega
    refine ⟨?_, ?_, ?_⟩
    · rw [represents.contents]
      exact related.accepted
    · rw [represents.count, represents.atomic]
      exact (wrapInt32_eq_self_iff _ (Nat.le_of_lt atMost)).mpr atMost
    · rw [represents.count]
      exact represents.fits

/-- A buffer for `2 ^ 31` messages does not stay faithful. -/
theorem large_ring_not_faithful : ¬ RefinesFifo () (2 ^ 31) := by
  intro refines
  obtain ⟨state, fifo, ran, related, length, -⟩ :=
    filled_of_pushes () (2 ^ 31) () (2 ^ 31) (by decide)
  have mirrored := ((refines _).2 state ⟨_, List.prefix_refl _, ran⟩).mirrored
  rw [related.represents.count, related.represents.atomic, length] at mirrored
  exact absurd mirrored (by decide)

end Plumego.PubSub.Ring
