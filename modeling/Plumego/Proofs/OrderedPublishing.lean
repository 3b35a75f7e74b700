/-
Module: Plumego.Proofs.OrderedPublishing
Purpose: What an ordered queue hands to the broker: where the messages are enqueued in
  the order of their numbers, each accepted message is handed over once and in that
  order, with the check of the numbers or without it.
Trusted boundary: as for the queue.
Main exports: HandedOver, InTurn, Moves, moves_of_step, exists_worker_run, handedOver_of_inTurn
-/
import Plumego.PubSub.Ordering

namespace Plumego.PubSub.Ordering

open Plumego.Go Plumego.Lib

variable {Data : Type} {config : Config}

/-- The messages handed to the broker are accepted ones, each once, in the order of
their numbers; the other accepted ones are on their way. -/
structure HandedOver (state : State Data) : Prop where
  increasing : state.published.Pairwise fun first second => first.sequence < second.sequence
  complete : ∃ done, state.published = done.map stamp ∧
    state.accepted = done ++ (state.flushing ++ (state.batch ++ state.channel))

/-- The number of the last message, or zero. -/
def lastNumber (messages : List (OrderedMessage Data)) : UInt64 :=
  (messages.getLast?.map OrderedMessage.sequence).getD 0

/-- A message is enqueued behind messages with smaller numbers. -/
def InTurn (config : Config) (state : State Data) : Action Data → Prop
  | .enqueue call => ∀ ordered ∈ state.calls[call]?, state.channel.length < config.queueSize →
      lastNumber state.accepted < ordered.sequence
  | _ => True

instance (config : Config) (state : State Data) (action : Action Data) :
    Decidable (InTurn config state action) := by
  cases action <;> dsimp only [InTurn] <;> infer_instance

/-! ## What a step does -/

/-- The steps of the calls and of the worker. -/
inductive Moves (config : Config) (state : State Data) : Action Data → State Data → Prop where
  | allocate (topic key : Bytes) (message : Message Data) :
      Moves config state (.allocate topic key message)
        { state with
          sequence := state.sequence + 1
          calls := state.calls ++ [⟨topic, key, message, state.sequence + 1⟩] }
  | enqueue {call : Nat} {ordered : OrderedMessage Data} (found : state.calls[call]? = some ordered)
      (room : state.channel.length < config.queueSize) :
      Moves config state (.enqueue call)
        { state with
          calls := state.calls.eraseIdx call
          channel := state.channel ++ [ordered]
          accepted := state.accepted ++ [ordered] }
  | turnAway {call : Nat} (full : ¬ state.channel.length < config.queueSize) :
      Moves config state (.enqueue call) { state with calls := state.calls.eraseIdx call }
  | receive {ordered : OrderedMessage Data} {rest : List (OrderedMessage Data)}
      (idle : state.flushing = []) (channel : state.channel = ordered :: rest) :
      Moves config state .receive
        { state with channel := rest, batch := state.batch ++ [ordered] }
  | receiveLast {ordered : OrderedMessage Data} {rest : List (OrderedMessage Data)}
      (idle : state.flushing = []) (channel : state.channel = ordered :: rest) :
      Moves config state .receive
        { state with channel := rest, batch := [], flushing := state.batch ++ [ordered] }
  | tick (idle : state.flushing = []) :
      Moves config state .tick { state with batch := [], flushing := state.batch }
  | publish {ordered : OrderedMessage Data} {rest : List (OrderedMessage Data)}
      (flushing : state.flushing = ordered :: rest) (unchecked : config.sequenceCheckEnabled = false) :
      Moves config state .flush
        { state with flushing := rest, published := state.published ++ [stamp ordered] }
  | publishChecked {ordered : OrderedMessage Data} {rest : List (OrderedMessage Data)}
      {tracker : SequenceTracker} (flushing : state.flushing = ordered :: rest)
      (verified : verifySequence state.tracker ordered.sequence = some tracker) :
      Moves config state .flush
        { state with
          flushing := rest
          tracker := tracker
          published := state.published ++ [stamp ordered] }
  | refuse {ordered : OrderedMessage Data} {rest : List (OrderedMessage Data)}
      (flushing : state.flushing = ordered :: rest) (checked : config.sequenceCheckEnabled = true)
      (late : verifySequence state.tracker ordered.sequence = none) :
      Moves config state .flush
        { state with flushing := rest, refused := state.refused ++ [ordered] }

theorem moves_of_step {state next : State Data} {action : Action Data}
    (stepEq : step config state action = some next) : Moves config state action next := by
  cases action with
  | allocate topic key message =>
    cases stepEq
    exact .allocate topic key message
  | enqueue call =>
    simp only [step] at stepEq
    split at stepEq
    · cases stepEq
    · rename_i ordered found
      split at stepEq
      · rename_i room
        exact Option.some.inj stepEq ▸ .enqueue found room
      · rename_i full
        exact Option.some.inj stepEq ▸ .turnAway full
  | receive =>
    simp only [step] at stepEq
    split at stepEq
    · rename_i ordered rest idle channel
      split at stepEq
      · exact Option.some.inj stepEq ▸ .receiveLast idle channel
      · exact Option.some.inj stepEq ▸ .receive idle channel
    · cases stepEq
  | tick =>
    simp only [step] at stepEq
    split at stepEq
    · rename_i idle
      exact Option.some.inj stepEq ▸ .tick idle
    · cases stepEq
  | flush =>
    simp only [step] at stepEq
    split at stepEq
    · cases stepEq
    · rename_i ordered rest flushing
      split at stepEq
      · rename_i checked
        split at stepEq
        · rename_i late
          exact Option.some.inj stepEq ▸ .refuse flushing checked late
        · rename_i tracker verified
          exact Option.some.inj stepEq ▸ .publishChecked flushing verified
      · rename_i unchecked
        exact Option.some.inj stepEq ▸ .publish flushing (Bool.eq_false_iff.mpr unchecked)

theorem moves_of_machine {state next : State Data} {action : Action Data} {out : Unit}
    (stepEq : (machine config).step state action = some (next, out)) :
    Moves config state action next := by
  obtain ⟨result, stepped, same⟩ := Option.map_eq_some_iff.mp stepEq
  cases same
  exact moves_of_step stepped

/-! ## The numbers -/

theorem lastNumber_append (messages : List (OrderedMessage Data)) (ordered : OrderedMessage Data) :
    lastNumber (messages ++ [ordered]) = ordered.sequence := by
  simp [lastNumber]

/-- Messages with growing positive numbers. -/
structure Increasing (messages : List (OrderedMessage Data)) : Prop where
  sorted : messages.Pairwise fun first second => first.sequence < second.sequence
  positive : ∀ ordered ∈ messages, 0 < ordered.sequence

theorem Increasing.lt_of_lastNumber {messages : List (OrderedMessage Data)} {number : UInt64}
    (increasing : Increasing messages) (larger : lastNumber messages < number) :
    ∀ ordered ∈ messages, ordered.sequence < number := by
  intro ordered member
  rcases List.eq_nil_or_concat' messages with rfl | ⟨front, last, rfl⟩
  · cases member
  · rw [lastNumber_append] at larger
    rcases List.mem_append.mp member with inFront | isLast
    · exact UInt64.lt_trans ((List.pairwise_append.mp increasing.sorted).2.2 ordered inFront last
        List.mem_cons_self) larger
    · rwa [List.mem_singleton.mp isLast]

theorem Increasing.append {messages : List (OrderedMessage Data)} {ordered : OrderedMessage Data}
    (increasing : Increasing messages) (larger : lastNumber messages < ordered.sequence) :
    Increasing (messages ++ [ordered]) := by
  refine ⟨List.pairwise_append.mpr ⟨increasing.sorted, List.pairwise_singleton _ _, ?_⟩, ?_⟩
  · intro earlier member other isOrdered
    rw [List.mem_singleton.mp isOrdered]
    exact increasing.lt_of_lastNumber larger earlier member
  · intro other member
    rcases List.mem_append.mp member with earlier | isOrdered
    · exact increasing.positive other earlier
    · rw [List.mem_singleton.mp isOrdered]
      exact UInt64.lt_of_le_of_lt UInt64.zero_le larger

/-- In growing messages each number is behind the last one of those before it. -/
theorem Increasing.lastNumber_lt {front back : List (OrderedMessage Data)}
    {ordered : OrderedMessage Data} (increasing : Increasing (front ++ ordered :: back)) :
    lastNumber front < ordered.sequence := by
  rcases List.eq_nil_or_concat' front with rfl | ⟨earlier, last, rfl⟩
  · exact increasing.positive ordered List.mem_cons_self
  · rw [lastNumber_append]
    exact (List.pairwise_append.mp increasing.sorted).2.2 last
      (List.mem_append_right _ List.mem_cons_self) ordered List.mem_cons_self

/-- A number behind the last one passes the check, and becomes the last one. -/
theorem verifySequence_of_lt {tracker : SequenceTracker} {sequence : UInt64}
    (larger : tracker.lastSequence < sequence) :
    ∃ missing, verifySequence tracker sequence = some ⟨sequence, missing⟩ := by
  have notLate : ¬ sequence < tracker.lastSequence + 1 := by
    rw [UInt64.lt_iff_toNat_lt] at larger
    have bound := sequence.toNat_lt
    have next : (tracker.lastSequence + 1).toNat = tracker.lastSequence.toNat + 1 := by
      rw [UInt64.toNat_add]
      exact Nat.mod_eq_of_lt (by change _ + 1 < _; omega)
    rw [UInt64.lt_iff_toNat_lt, next]
    omega
  exact ⟨_, by rw [verifySequence, if_neg notLate]⟩

/-! ## The invariant -/

/-- The messages that went through `flushBatch`, all of them published, and where the
other accepted messages are. -/
structure Orderly (config : Config) (state : State Data) (done : List (OrderedMessage Data)) :
    Prop where
  published : state.published = done.map stamp
  accepted : state.accepted = done ++ (state.flushing ++ (state.batch ++ state.channel))
  increasing : Increasing state.accepted
  tracked : config.sequenceCheckEnabled = true → state.tracker.lastSequence = lastNumber done

theorem orderly_start : Orderly config (start : State Data) [] :=
  ⟨rfl, rfl, ⟨List.Pairwise.nil, nofun⟩, fun _ => rfl⟩

/-- Handing over the next message keeps the invariant. -/
theorem Orderly.handOver {state next : State Data} {done rest : List (OrderedMessage Data)}
    {ordered : OrderedMessage Data} (orderly : Orderly config state done)
    (flushing : state.flushing = ordered :: rest) (nextFlushing : next.flushing = rest)
    (published : next.published = state.published ++ [stamp ordered])
    (sameBatch : next.batch = state.batch) (sameChannel : next.channel = state.channel)
    (sameAccepted : next.accepted = state.accepted)
    (tracked : config.sequenceCheckEnabled = true → next.tracker.lastSequence = ordered.sequence) :
    Orderly config next (done ++ [ordered]) where
  published := by
    rw [published, orderly.published, List.map_append]
    rfl
  accepted := by
    rw [sameAccepted, orderly.accepted, flushing, nextFlushing, sameBatch, sameChannel]
    simp
  increasing := by
    rw [sameAccepted]
    exact orderly.increasing
  tracked := fun checked => by rw [tracked checked, lastNumber_append]

/-- The next message of a batch has a larger number than those before it. -/
theorem Orderly.lastNumber_lt {state : State Data} {done rest : List (OrderedMessage Data)}
    {ordered : OrderedMessage Data} (orderly : Orderly config state done)
    (flushing : state.flushing = ordered :: rest) : lastNumber done < ordered.sequence := by
  have increasing := orderly.increasing
  rw [orderly.accepted, flushing, List.cons_append] at increasing
  exact increasing.lastNumber_lt

theorem Orderly.step {state next : State Data} {action : Action Data}
    {done : List (OrderedMessage Data)} (orderly : Orderly config state done)
    (inTurn : InTurn config state action) (moves : Moves config state action next) :
    ∃ nextDone, Orderly config next nextDone := by
  cases moves with
  | allocate topic key message =>
    exact ⟨done, orderly.published, orderly.accepted, orderly.increasing, orderly.tracked⟩
  | enqueue found room =>
    refine ⟨done, orderly.published, ?_, orderly.increasing.append (inTurn _ found room),
      orderly.tracked⟩
    simp [orderly.accepted]
  | turnAway full =>
    exact ⟨done, orderly.published, orderly.accepted, orderly.increasing, orderly.tracked⟩
  | receive idle channel | receiveLast idle channel =>
    refine ⟨done, orderly.published, ?_, orderly.increasing, orderly.tracked⟩
    simp [orderly.accepted, idle, channel]
  | tick idle =>
    refine ⟨done, orderly.published, ?_, orderly.increasing, orderly.tracked⟩
    simp [orderly.accepted, idle]
  | publish flushing unchecked =>
    exact ⟨_, orderly.handOver flushing rfl rfl rfl rfl rfl
      fun checked => absurd (unchecked.symm.trans checked) Bool.false_ne_true⟩
  | publishChecked flushing verified =>
    rename_i ordered rest tracker
    refine ⟨_, orderly.handOver flushing rfl rfl rfl rfl rfl fun checked => ?_⟩
    have larger := orderly.lastNumber_lt flushing
    rw [← orderly.tracked checked] at larger
    obtain ⟨missing, passed⟩ := verifySequence_of_lt larger
    rw [← Option.some.inj (passed.symm.trans verified)]
  | refuse flushing checked late =>
    have larger := orderly.lastNumber_lt flushing
    rw [← orderly.tracked checked] at larger
    obtain ⟨missing, passed⟩ := verifySequence_of_lt larger
    exact absurd (late.symm.trans passed) nofun

theorem Orderly.handedOver {state : State Data} {done : List (OrderedMessage Data)}
    (orderly : Orderly config state done) : HandedOver state where
  increasing := by
    have increasing := orderly.increasing.sorted
    rw [orderly.accepted] at increasing
    rw [orderly.published, List.pairwise_map]
    exact (List.pairwise_append.mp increasing).1
  complete := ⟨done, orderly.published, orderly.accepted⟩

/-- Some part of the accepted messages went through. -/
def InOrder (config : Config) (state : State Data) : Prop := ∃ done, Orderly config state done

/-! ## The worker gets through -/

/-- The steps of the worker. -/
def Action.byWorker : Action Data → Bool
  | .receive | .tick | .flush => true
  | .allocate _ _ _ | .enqueue _ => false

/-- How many steps the accepted messages are away from the broker, at most. -/
def remaining (state : State Data) : Nat :=
  state.flushing.length + (2 * state.batch.length + 3 * state.channel.length)

/-- The worker has a step as long as a message is on its way. -/
theorem exists_worker_step (config : Config) (state : State Data) (waits : 0 < remaining state) :
    ∃ action next, action.byWorker = true ∧ step config state action = some next ∧
      remaining next < remaining state ∧ next.accepted = state.accepted := by
  cases flushing : state.flushing with
  | cons ordered rest =>
    refine ⟨.flush, ?_⟩
    simp only [step, flushing]
    split
    · split
      · exact ⟨_, rfl, rfl, by simp [remaining, flushing], rfl⟩
      · exact ⟨_, rfl, rfl, by simp [remaining, flushing], rfl⟩
    · exact ⟨_, rfl, rfl, by simp [remaining, flushing], rfl⟩
  | nil =>
    cases channel : state.channel with
    | cons ordered rest =>
      refine ⟨.receive, ?_⟩
      simp only [step, flushing, channel]
      split
      · refine ⟨_, rfl, rfl, ?_, rfl⟩
        simp only [remaining, flushing, channel, List.length_append, List.length_cons,
          List.length_nil]
        omega
      · refine ⟨_, rfl, rfl, ?_, rfl⟩
        simp only [remaining, flushing, channel, List.length_append, List.length_cons,
          List.length_nil]
        omega
    | nil =>
      refine ⟨.tick, ?_⟩
      simp only [step, flushing]
      refine ⟨_, rfl, rfl, ?_, rfl⟩
      simp only [remaining, flushing, channel, List.length_nil] at waits ⊢
      omega

/-- The worker alone brings every accepted message through `flushBatch`. -/
theorem exists_worker_run (config : Config) (state : State Data) :
    ∃ work final, (∀ action ∈ work, Action.byWorker action = true) ∧
      (machine config).run state work = some final ∧ remaining final = 0 ∧
      final.accepted = state.accepted := by
  induction distance : remaining state using Nat.strong_induction_on generalizing state with
  | _ distance hypothesis =>
    rcases Nat.eq_zero_or_pos (remaining state) with arrived | waits
    · exact ⟨[], state, nofun, rfl, arrived, rfl⟩
    · obtain ⟨action, next, byWorker, stepEq, closer, accepted⟩ :=
        exists_worker_step config state waits
      obtain ⟨work, final, worker, ran, arrived, kept⟩ :=
        hypothesis (remaining next) (distance ▸ closer) next rfl
      refine ⟨action :: work, final, ?_, ?_, arrived, kept.trans accepted⟩
      · exact List.forall_mem_cons.mpr ⟨byWorker, worker⟩
      · have stepped : (machine config).step state action = some (next, ()) := by
          simp only [machine, stepEq, Option.map_some]
        rw [Machine.run_cons, stepped]
        exact ran

/-- The worker's steps need no condition. -/
theorem inTurn_of_byWorker {state : State Data} {action : Action Data}
    (byWorker : action.byWorker = true) : InTurn config state action := by
  cases action with
  | allocate topic key message => cases byWorker
  | enqueue call => cases byWorker
  | receive | tick | flush => trivial

/-- From an orderly state the worker hands over every accepted message. -/
theorem InOrder.exists_work {state : State Data} (inOrder : InOrder config state) :
    ∃ work final, (∀ action ∈ work, Action.byWorker action = true) ∧
      (machine config).run state work = some final ∧
      final.published = state.accepted.map stamp := by
  obtain ⟨work, final, worker, ran, arrived, accepted⟩ := exists_worker_run config state
  have finalOrder : InOrder config final := by
    refine Machine.run_invariant ?_ inOrder worker ran
    rintro before action after out byWorker ⟨done, holds⟩ stepEq
    exact holds.step (inTurn_of_byWorker byWorker) (moves_of_machine stepEq)
  obtain ⟨done, holds⟩ := finalOrder
  have nothingLeft : final.flushing = [] ∧ final.batch = [] ∧ final.channel = [] := by
    simp only [remaining] at arrived
    refine ⟨?_, ?_, ?_⟩ <;> exact List.eq_nil_of_length_eq_zero (by omega)
  have through := holds.accepted
  rw [nothingLeft.1, nothingLeft.2.1, nothingLeft.2.2, accepted] at through
  refine ⟨work, final, worker, ran, ?_⟩
  rw [holds.published, through]
  simp

/-- In a run whose messages are enqueued in the order of their numbers, every accepted
message is handed to the broker once and in that order: some have been, the others are on
their way, and the worker's steps alone bring them there. -/
theorem handedOver_of_inTurn {actions : List (Action Data)} {state : State Data}
    (inTurn : (machine config).Meets (InTurn config) start actions)
    (reached : (machine config).Reaches start actions state) :
    HandedOver state ∧ ∃ work final, (∀ action ∈ work, Action.byWorker action = true) ∧
      (machine config).run state work = some final ∧
      final.published = state.accepted.map stamp := by
  have initial : InOrder config (start : State Data) := ⟨[], orderly_start⟩
  have inOrder : InOrder config state := by
    refine Machine.reaches_invariant ?_ initial inTurn reached
    rintro before action after out ⟨done, holds⟩ condition stepEq
    exact holds.step condition (moves_of_machine stepEq)
  obtain ⟨done, holds⟩ := inOrder
  exact ⟨holds.handedOver, InOrder.exists_work ⟨done, holds⟩⟩

/-- A message without metadata. -/
def sample (name : String) : Message Unit :=
  ⟨ascii name, ascii "orders", [], 0, (), none⟩

/-- Two calls take their numbers and then enqueue, first the one at `first`; the worker
flushes both messages. -/
def twoCalls (first : Nat) : List (Action Unit) :=
  [.allocate (ascii "orders") [] (sample "a"), .allocate (ascii "orders") [] (sample "b"),
    .enqueue first, .enqueue 0, .receive, .receive, .tick, .flush, .flush]

/-- The default sizes, with the check of the numbers or without it. -/
def sampleConfig (checked : Bool) : Config := ⟨1000, 10, checked⟩

/-- Calls that enqueue in turn. -/
theorem handedOver_in_turn :
    (machine (sampleConfig true)).Meets (InTurn (sampleConfig true)) start (twoCalls 0) ∧
    ∃ state, (machine (sampleConfig true)).run start (twoCalls 0) = some state ∧
      state.published.map OrderedMessage.sequence = [1, 2] ∧ HandedOver state := by
  have inTurn : (machine (sampleConfig true)).Meets (InTurn (sampleConfig true)) start
      (twoCalls 0) := by decide +kernel
  have numbers : ((machine (sampleConfig true)).run start (twoCalls 0)).map
      (fun state => state.published.map OrderedMessage.sequence) = some [1, 2] := by
    decide +kernel
  obtain ⟨state, ran, published⟩ := Option.map_eq_some_iff.mp numbers
  exact ⟨inTurn, state, ran, published,
    (handedOver_of_inTurn inTurn ⟨_, List.prefix_rfl, ran⟩).1⟩

/-- A call that is overtaken between taking its number and enqueueing: its message is
handed over out of order without the check, and lost with it. -/
theorem not_handedOver_overtaken :
    (∃ state, (machine (sampleConfig false)).run start (twoCalls 1) = some state ∧
      state.published.map OrderedMessage.sequence = [2, 1] ∧ ¬ HandedOver state) ∧
    ∃ state, (machine (sampleConfig true)).run start (twoCalls 1) = some state ∧
      state.accepted.map OrderedMessage.sequence = [2, 1] ∧
      state.published.map OrderedMessage.sequence = [2] ∧ ¬ HandedOver state := by
  have unchecked : ((machine (sampleConfig false)).run start (twoCalls 1)).map
      (fun state => state.published.map OrderedMessage.sequence) = some [2, 1] := by
    decide +kernel
  have checked : ((machine (sampleConfig true)).run start (twoCalls 1)).map
      (fun state => (state.accepted.map OrderedMessage.sequence,
        state.published.map OrderedMessage.sequence,
        state.flushing.length + (state.batch.length + state.channel.length))) =
      some ([2, 1], [2], 0) := by
    decide +kernel
  obtain ⟨plain, plainRan, plainNumbers⟩ := Option.map_eq_some_iff.mp unchecked
  obtain ⟨state, ran, numbers⟩ := Option.map_eq_some_iff.mp checked
  simp only [Prod.mk.injEq] at numbers
  obtain ⟨accepted, published, onTheWay⟩ := numbers
  refine ⟨⟨plain, plainRan, plainNumbers, fun handed => ?_⟩,
    ⟨state, ran, accepted, published, fun handed => ?_⟩⟩
  · have increasing := List.pairwise_map.mpr handed.increasing
    rw [plainNumbers] at increasing
    exact absurd increasing (by decide)
  · obtain ⟨done, publishedEq, acceptedEq⟩ := handed.complete
    have acceptedCount := congrArg List.length accepted
    have publishedCount := congrArg List.length published
    rw [acceptedEq] at acceptedCount
    rw [publishedEq] at publishedCount
    simp only [List.length_map, List.length_append, List.length_cons, List.length_nil]
      at acceptedCount publishedCount
    omega

end Plumego.PubSub.Ordering
