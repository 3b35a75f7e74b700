/-
Module: Plumego.Proofs.PriorityBuffering
Purpose: The two heaps of the priority buffer hold the same messages at the places these know, and
  the buffer takes out the first message by priority and drops the last.
Trusted boundary: as for the priority buffer.
Main exports: Sound, push_spec, pop_spec, drain_spec, Pushes, Pops, priority_buffer_correct
-/
import Plumego.PubSub.PriorityBuffer

namespace Plumego.PubSub.Priority

open Plumego.Lib

variable {Msg : Type} [DecidableEq Msg] {heaps : Heaps Msg} {buffer next : PriorityBuffer Msg}

/-- The invariant of the buffer. -/
structure Sound (heaps : Heaps Msg) (buffer : PriorityBuffer Msg) : Prop where
  same : buffer.eq.items.Perm buffer.pq.items
  pqWired : buffer.pq.Wired
  eqWired : buffer.eq.Wired
  pqHeap : heaps.pq.Heap buffer.pq.items
  eqHeap : heaps.eq.Heap buffer.eq.items
  atMost : buffer.pq.items.length ≤ buffer.capacity
  numbered : ∀ item ∈ buffer.pq.items, item.sequence ≤ buffer.sequence
  distinct : (buffer.pq.items.map PriorityMessage.sequence).Nodup
  positive : 0 < buffer.capacity

omit [DecidableEq Msg] in
theorem sound_new (heaps : Heaps Msg) (capacity : Int) :
    Sound heaps (newPriorityBuffer capacity) where
  same := List.Perm.refl _
  pqWired := Indexed.wired_empty
  eqWired := Indexed.wired_empty
  pqHeap := heaps.pq.heap_nil
  eqHeap := heaps.eq.heap_nil
  atMost := Nat.zero_le _
  numbered := by simp [newPriorityBuffer, Indexed.empty]
  distinct := List.nodup_nil
  positive := by
    simp only [newPriorityBuffer]
    split <;> omega

/-- An item is removed from the place it has written down. -/
theorem removeAt_spec {less : PriorityMessage Msg → PriorityMessage Msg → Bool}
    (library : Library less) {heap : Indexed (PriorityMessage Msg)} (wired : heap.Wired)
    (isHeap : library.Heap heap.items) {item : PriorityMessage Msg} (member : item ∈ heap.items) :
    ∃ next, removeAt library heap (heap.index item) = some (next, item) ∧
      heap.items.Perm (item :: next.items) ∧ next.Wired ∧ library.Heap next.items := by
  obtain ⟨place, found⟩ := List.mem_iff_getElem?.mp member
  rw [wired.aligned place item found, removeAt, if_pos (Int.natCast_nonneg _), Int.toNat_natCast]
  exact wired.remove library isHeap found

/-- Adding a numbered item where there is room. -/
theorem Sound.insert (sound : Sound heaps buffer) (room : buffer.pq.items.length < buffer.capacity)
    (item : PriorityMessage Msg) (new : ∀ other ∈ buffer.pq.items, other.sequence < item.sequence)
    (numbered : item.sequence ≤ buffer.sequence) :
    ∃ next, buffer.insert heaps item = some next ∧ Sound heaps next ∧
      next.pq.items.Perm (item :: buffer.pq.items) ∧ next.capacity = buffer.capacity := by
  have fresh : item ∉ buffer.pq.items := fun member => Nat.lt_irrefl _ (new item member)
  have freshToo : item ∉ buffer.eq.items := fun member => fresh (sound.same.mem_iff.mp member)
  obtain ⟨pq, pqPushed, pqPerm, pqWired, pqHeap⟩ := sound.pqWired.push heaps.pq sound.pqHeap fresh
  obtain ⟨eq, eqPushed, eqPerm, eqWired, eqHeap⟩ :=
    sound.eqWired.push heaps.eq sound.eqHeap freshToo
  refine ⟨{ buffer with pq := pq, eq := eq },
    by simp [PriorityBuffer.insert, pqPushed, eqPushed], ?_, pqPerm, rfl⟩
  exact {
    same := eqPerm.trans ((sound.same.cons item).trans pqPerm.symm)
    pqWired := pqWired
    eqWired := eqWired
    pqHeap := pqHeap
    eqHeap := eqHeap
    atMost := by
      have length := pqPerm.length_eq
      rw [List.length_cons] at length
      dsimp only
      omega
    numbered := by
      intro other member
      rcases List.mem_cons.mp (pqPerm.mem_iff.mp member) with rfl | old
      · exact numbered
      · exact sound.numbered other old
    distinct := by
      refine (pqPerm.map _).nodup_iff.mpr (List.nodup_cons.mpr ⟨fun again => ?_, sound.distinct⟩)
      obtain ⟨other, member, equal⟩ := List.mem_map.mp again
      exact absurd (new other member) (by rw [equal]; exact Nat.lt_irrefl _)
    positive := sound.positive }

omit [DecidableEq Msg] in
/-- Taking the same item out of both heaps. -/
theorem Sound.removed (sound : Sound heaps buffer) {item : PriorityMessage Msg}
    {pq eq : Indexed (PriorityMessage Msg)} (pqPerm : buffer.pq.items.Perm (item :: pq.items))
    (eqPerm : buffer.eq.items.Perm (item :: eq.items)) (pqWired : pq.Wired) (eqWired : eq.Wired)
    (pqHeap : heaps.pq.Heap pq.items) (eqHeap : heaps.eq.Heap eq.items) {sequence : Nat}
    (counted : buffer.sequence ≤ sequence) :
    Sound heaps { buffer with pq := pq, eq := eq, sequence := sequence } where
  same := List.Perm.cons_inv (eqPerm.symm.trans (sound.same.trans pqPerm))
  pqWired := pqWired
  eqWired := eqWired
  pqHeap := pqHeap
  eqHeap := eqHeap
  atMost := by
    have length := pqPerm.length_eq
    have atMost := sound.atMost
    rw [List.length_cons] at length
    dsimp only
    omega
  numbered := fun other member => Nat.le_trans
    (sound.numbered other (pqPerm.mem_iff.mpr (List.mem_cons_of_mem _ member))) counted
  distinct := (List.nodup_cons.mp ((pqPerm.map _).nodup_iff.mp sound.distinct)).2
  positive := sound.positive

omit [DecidableEq Msg] in
/-- Items beside a removed one have other numbers. -/
theorem Sound.sequence_ne (sound : Sound heaps buffer) {item other : PriorityMessage Msg}
    {rest : List (PriorityMessage Msg)} (perm : buffer.pq.items.Perm (item :: rest))
    (member : other ∈ rest) : other.sequence ≠ item.sequence := by
  have distinct := (perm.map PriorityMessage.sequence).nodup_iff.mp sound.distinct
  intro equal
  exact (List.nodup_cons.mp distinct).1 (List.mem_map.mpr ⟨other, member, equal⟩)

/-! ## Push -/

/-- What a push is to do: with room the message is added; a full buffer drops the new message if its
priority number exceeds every buffered one, and otherwise the oldest buffered one of the largest
number. -/
def Pushes (buffer : PriorityBuffer Msg) (msg : Msg) (priority : Int)
    (next : PriorityBuffer Msg) (dropped : Option Msg) : Prop :=
  let item : PriorityMessage Msg := ⟨msg, priority, buffer.sequence + 1⟩
  if buffer.pq.items.length < buffer.capacity then
    dropped = none ∧ next.pq.items.Perm (item :: buffer.pq.items)
  else if ∀ other ∈ buffer.pq.items, other.priority < priority then
    dropped = some msg ∧ next.pq = buffer.pq
  else
    ∃ worst rest, dropped = some worst.message ∧ buffer.pq.items.Perm (worst :: rest) ∧
      (∀ other ∈ rest, other.priority < worst.priority ∨
        other.priority = worst.priority ∧ worst.sequence < other.sequence) ∧
      next.pq.items.Perm (item :: rest)

omit [DecidableEq Msg] in
/-- The root of the eviction heap. -/
theorem eqLess_root {worst other : PriorityMessage Msg} (root : eqLess other worst = false)
    (distinct : other.sequence ≠ worst.sequence) : other.priority < worst.priority ∨
      other.priority = worst.priority ∧ worst.sequence < other.sequence := by
  unfold eqLess at root
  split at root
  · have notGreater := of_decide_eq_false root
    omega
  · have notEarlier := of_decide_eq_false root
    omega

theorem push_spec (sound : Sound heaps buffer) (msg : Msg) (priority : Int) :
    ∃ next dropped, buffer.push heaps msg priority = some (next, dropped) ∧ Sound heaps next ∧
      Pushes buffer msg priority next dropped ∧ next.capacity = buffer.capacity := by
  have later : ∀ other ∈ buffer.pq.items, other.sequence < buffer.sequence + 1 :=
    fun other member => Nat.lt_succ_of_le (sound.numbered other member)
  by_cases full : buffer.capacity ≤ buffer.pq.items.length
  · have notRoom : ¬ buffer.pq.items.length < buffer.capacity := Nat.not_lt.mpr full
    cases items : buffer.eq.items with
    | nil =>
      have length := sound.same.length_eq
      rw [items, List.length_nil] at length
      have positive := sound.positive
      omega
    | cons worst others =>
      have first : buffer.eq.items[0]? = some worst := by rw [items]; rfl
      have roots := heaps.eq.heap_root worst others (items ▸ sound.eqHeap)
      have isBuffered : worst ∈ buffer.pq.items :=
        sound.same.mem_iff.mp (List.mem_of_getElem? first)
      by_cases better : priority ≤ worst.priority
      · obtain ⟨eq, eqRemoved, eqPerm, eqWired, eqHeap⟩ :=
          sound.eqWired.remove heaps.eq sound.eqHeap first
        obtain ⟨pq, pqRemoved, pqPerm, pqWired, pqHeap⟩ :=
          removeAt_spec heaps.pq sound.pqWired sound.pqHeap isBuffered
        have smaller := sound.removed pqPerm eqPerm pqWired eqWired pqHeap eqHeap
          (Nat.le_succ buffer.sequence)
        have room : pq.items.length < buffer.capacity := by
          have length := pqPerm.length_eq
          have atMost := sound.atMost
          rw [List.length_cons] at length
          omega
        obtain ⟨next, inserted, nextSound, nextPerm, nextCapacity⟩ :=
          smaller.insert room ⟨msg, priority, buffer.sequence + 1⟩
            (fun other member => later other (pqPerm.mem_iff.mpr
              (List.mem_cons_of_mem _ member))) (Nat.le_refl _)
        refine ⟨next, some worst.message, ?_, nextSound, ?_, nextCapacity⟩
        · simp [PriorityBuffer.push, full, first, better, eqRemoved, pqRemoved, inserted]
        · have notWorse : ¬ ∀ other ∈ buffer.pq.items, other.priority < priority :=
            fun every => absurd (every worst isBuffered) (Int.not_lt.mpr better)
          rw [Pushes, if_neg notRoom, if_neg notWorse]
          have restPerm : others.Perm pq.items := by
            have whole := sound.same.trans pqPerm
            rw [items] at whole
            exact List.Perm.cons_inv whole
          exact ⟨worst, pq.items, rfl, pqPerm, fun other member => eqLess_root
            (roots other (restPerm.mem_iff.mpr member)) (sound.sequence_ne pqPerm member),
            nextPerm⟩
      · refine ⟨{ buffer with sequence := buffer.sequence + 1 }, some msg, ?_, ?_, ?_, rfl⟩
        · simp [PriorityBuffer.push, full, first, better]
        · exact { sound with
            numbered := fun item member => Nat.le_succ_of_le (sound.numbered item member) }
        · have worse : ∀ other ∈ buffer.pq.items, other.priority < priority := by
            intro other member
            have inEq := sound.same.mem_iff.mpr member
            rw [items] at inEq
            rcases List.mem_cons.mp inEq with rfl | behind
            · omega
            · have root := roots other behind
              unfold eqLess at root
              split at root
              · have notGreater := of_decide_eq_false root
                omega
              · omega
          rw [Pushes, if_neg notRoom, if_pos worse]
          exact ⟨rfl, rfl⟩
  · have room : buffer.pq.items.length < buffer.capacity := Nat.not_le.mp full
    have counted : Sound heaps { buffer with sequence := buffer.sequence + 1 } := { sound with
      numbered := fun item member => Nat.le_succ_of_le (sound.numbered item member) }
    obtain ⟨next, inserted, nextSound, nextPerm, nextCapacity⟩ :=
      counted.insert room ⟨msg, priority, buffer.sequence + 1⟩ later (Nat.le_refl _)
    refine ⟨next, none, ?_, nextSound, ?_, nextCapacity⟩
    · simp [PriorityBuffer.push, full, inserted]
    · rw [Pushes, if_pos room]
      exact ⟨rfl, nextPerm⟩

/-! ## Pop and Drain -/

/-- What a pop is to do: it takes out the item of the least number and, among these, the oldest. -/
def Pops (buffer next : PriorityBuffer Msg) : Option (PriorityMessage Msg) → Prop
  | none => buffer.pq.items = [] ∧ next = buffer
  | some first => ∃ rest, buffer.pq.items.Perm (first :: rest) ∧
      (∀ other ∈ rest, first.priority < other.priority ∨
        first.priority = other.priority ∧ first.sequence < other.sequence) ∧
      next.pq.items.Perm rest

omit [DecidableEq Msg] in
theorem pqLess_root {first other : PriorityMessage Msg} (root : pqLess other first = false)
    (distinct : other.sequence ≠ first.sequence) : first.priority < other.priority ∨
      first.priority = other.priority ∧ first.sequence < other.sequence := by
  unfold pqLess at root
  split at root
  · have notLess := of_decide_eq_false root
    omega
  · have notEarlier := of_decide_eq_false root
    omega

theorem pop_spec (sound : Sound heaps buffer) :
    ∃ next item, buffer.pop heaps = some (next, item) ∧ Sound heaps next ∧ Pops buffer next item ∧
      next.capacity = buffer.capacity := by
  cases items : buffer.pq.items with
  | nil => exact ⟨buffer, none, by simp [PriorityBuffer.pop, items], sound, ⟨items, rfl⟩, rfl⟩
  | cons first others =>
    have isFirst : buffer.pq.items[0]? = some first := by rw [items]; rfl
    have roots := heaps.pq.heap_root first others (items ▸ sound.pqHeap)
    obtain ⟨pq, pqRemoved, pqPerm, pqWired, pqHeap⟩ :=
      sound.pqWired.remove heaps.pq sound.pqHeap isFirst
    obtain ⟨eq, eqRemoved, eqPerm, eqWired, eqHeap⟩ :=
      removeAt_spec heaps.eq sound.eqWired sound.eqHeap
        (sound.same.mem_iff.mpr (List.mem_of_getElem? isFirst))
    have smaller := sound.removed pqPerm eqPerm pqWired eqWired pqHeap eqHeap (Nat.le_refl _)
    refine ⟨{ buffer with pq := pq, eq := eq }, some first, ?_, smaller, ?_, rfl⟩
    · simp [PriorityBuffer.pop, items, pqRemoved, eqRemoved]
    · have restPerm : others.Perm pq.items := by
        have whole := pqPerm
        rw [items] at whole
        exact List.Perm.cons_inv whole
      exact ⟨pq.items, pqPerm, fun other member => pqLess_root
        (roots other (restPerm.mem_iff.mpr member)) (sound.sequence_ne pqPerm member),
        List.Perm.refl _⟩

/-- As many rounds as there are items take all of them out. -/
theorem drainLoop_spec {pq : Indexed (PriorityMessage Msg)} (wired : pq.Wired)
    (isHeap : heaps.pq.Heap pq.items) {rounds : Nat} (length : pq.items.length = rounds) :
    ∃ final msgs, PriorityBuffer.drainLoop heaps rounds pq = some (final, msgs) ∧
      final.items = [] ∧ msgs.Perm (pq.items.map PriorityMessage.message) := by
  induction rounds generalizing pq with
  | zero =>
    have empty := List.eq_nil_of_length_eq_zero length
    exact ⟨pq, [], rfl, empty, by rw [empty]; exact List.Perm.refl _⟩
  | succ rounds ih =>
    have isFirst := List.getElem?_eq_getElem (by omega : 0 < pq.items.length)
    obtain ⟨smaller, removed, perm, smallerWired, smallerHeap⟩ :=
      wired.remove heaps.pq isHeap isFirst
    have shorter := perm.length_eq
    rw [List.length_cons] at shorter
    obtain ⟨final, msgs, looped, empty, msgsPerm⟩ :=
      ih smallerWired smallerHeap (by omega)
    refine ⟨final, (pq.items[0]).message :: msgs,
      by simp [PriorityBuffer.drainLoop, removed, looped], empty, ?_⟩
    exact (msgsPerm.cons _).trans (perm.map PriorityMessage.message).symm

theorem drain_spec (sound : Sound heaps buffer) :
    ∃ next msgs, buffer.drain heaps = some (next, msgs) ∧ Sound heaps next ∧
      next.pq.items = [] ∧ msgs.Perm (buffer.pq.items.map PriorityMessage.message) ∧
      next.capacity = buffer.capacity := by
  obtain ⟨final, msgs, looped, empty, perm⟩ := drainLoop_spec sound.pqWired sound.pqHeap rfl
  refine ⟨{ buffer with pq := final, eq := { buffer.eq with items := [] } }, msgs,
    by simp [PriorityBuffer.drain, looped], ?_, empty, perm, rfl⟩
  exact {
    same := by rw [empty]
    pqWired := ⟨by rw [empty]; exact List.nodup_nil, by simp [empty]⟩
    eqWired := ⟨List.nodup_nil, by simp⟩
    pqHeap := by rw [empty]; exact heaps.pq.heap_nil
    eqHeap := heaps.eq.heap_nil
    atMost := by rw [empty]; exact Nat.zero_le _
    numbered := by simp [empty]
    distinct := by rw [empty]; exact List.nodup_nil
    positive := sound.positive }

/-! ## Runs -/

/-- What is to hold of the buffer at every point, and of the next call. -/
structure Correct (heaps : Heaps Msg) (capacity : Nat) (buffer : PriorityBuffer Msg) : Prop where
  same : buffer.eq.items.Perm buffer.pq.items
  index : ∀ (place : Nat) item, buffer.pq.items[place]? = some item → buffer.pq.index item = place
  rindex : ∀ (place : Nat) item, buffer.eq.items[place]? = some item →
    buffer.eq.index item = place
  atMost : buffer.pq.items.length ≤ capacity
  push : ∀ msg priority, ∃ next dropped, step heaps buffer (.push msg priority) =
    some (next, .pushed dropped) ∧ Pushes buffer msg priority next dropped
  pop : ∃ next item, step heaps buffer .pop = some (next, .popped item) ∧ Pops buffer next item
  drain : ∃ next msgs, step heaps buffer .drain = some (next, .drained msgs) ∧
    next.pq.items = [] ∧ msgs.Perm (buffer.pq.items.map PriorityMessage.message)

theorem step_sound (sound : Sound heaps buffer) (op : Op Msg) :
    ∃ next out, step heaps buffer op = some (next, out) ∧ Sound heaps next ∧
      next.capacity = buffer.capacity := by
  cases op with
  | push msg priority =>
    obtain ⟨next, dropped, pushed, nextSound, -, capacity⟩ := push_spec sound msg priority
    exact ⟨next, .pushed dropped, by simp [step, pushed], nextSound, capacity⟩
  | pop =>
    obtain ⟨next, item, popped, nextSound, -, capacity⟩ := pop_spec sound
    exact ⟨next, .popped item, by simp [step, popped], nextSound, capacity⟩
  | drain =>
    obtain ⟨next, msgs, drained, nextSound, -, -, capacity⟩ := drain_spec sound
    exact ⟨next, .drained msgs, by simp [step, drained], nextSound, capacity⟩

theorem Sound.correct (sound : Sound heaps buffer) : Correct heaps buffer.capacity buffer where
  same := sound.same
  index := sound.pqWired.aligned
  rindex := sound.eqWired.aligned
  atMost := sound.atMost
  push := by
    intro msg priority
    obtain ⟨next, dropped, pushed, -, pushes, -⟩ := push_spec sound msg priority
    exact ⟨next, dropped, by simp [step, pushed], pushes⟩
  pop := by
    obtain ⟨next, item, popped, -, pops, -⟩ := pop_spec sound
    exact ⟨next, item, by simp [step, popped], pops⟩
  drain := by
    obtain ⟨next, msgs, drained, -, empty, perm, -⟩ := drain_spec sound
    exact ⟨next, msgs, by simp [step, drained], empty, perm⟩

/-- No call of any run indexes out of range, and in every state the heaps hold the same items at the
places these know, at most as many as the capacity, and the next call does what it is to do. -/
theorem priority_buffer_correct (heaps : Heaps Msg) (capacity : Int) (ops : List (Op Msg)) :
    ((machine heaps).run (newPriorityBuffer capacity) ops).isSome = true ∧
      ∀ buffer, (machine heaps).Reaches (newPriorityBuffer capacity) ops buffer →
        Correct heaps (if capacity ≤ 0 then 16 else capacity.toNat) buffer := by
  have keeps : ∀ before op, (Sound heaps before ∧
      before.capacity = if capacity ≤ 0 then 16 else capacity.toNat) →
      ∃ after out, (machine heaps).step before op = some (after, out) ∧ Sound heaps after ∧
        after.capacity = if capacity ≤ 0 then 16 else capacity.toNat := by
    rintro before op ⟨sound, known⟩
    obtain ⟨after, out, stepped, afterSound, same⟩ := step_sound sound op
    exact ⟨after, out, stepped, afterSound, same.trans known⟩
  obtain ⟨ran, throughout⟩ := Machine.reaches_total keeps ⟨sound_new heaps capacity, rfl⟩ ops
  refine ⟨ran, fun buffer reached => ?_⟩
  obtain ⟨sound, known⟩ := throughout buffer reached
  rw [← known]
  exact sound.correct

end Plumego.PubSub.Priority
