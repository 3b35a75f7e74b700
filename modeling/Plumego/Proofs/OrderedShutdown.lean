/-
Module: Plumego.Proofs.OrderedShutdown
Purpose: Which runs of `Close` hand every accepted message to the broker before they close it.
Trusted boundary: as for closing ordered publishing.
Main exports: Drained, NothingLeft, Queue.Sound, step_sound, shutdown_drains
-/
import Plumego.PubSub.OrderedClose

namespace Plumego.PubSub.Ordering.Closing

open Plumego.Go Plumego.Lib

variable {Data : Type} {config : Config}

/-- The messages accepted before `Close` began have been handed to the broker, in order. -/
def Drained (queue : Queue Data) : Prop :=
  (queue.core.accepted.take queue.owed).map stamp <+: queue.core.published

instance [DecidableEq Data] (queue : Queue Data) : Decidable (Drained queue) :=
  inferInstanceAs (Decidable (_ <+: _))

/-- The channel holds no message that was accepted before `Close` began. -/
def NothingLeft (queue : Queue Data) : Prop :=
  queue.owed + queue.core.channel.length ≤ queue.core.accepted.length

instance (queue : Queue Data) : Decidable (NothingLeft queue) :=
  inferInstanceAs (Decidable (_ ≤ _))

/-- A worker stops only when its channel holds nothing that `Close` owes. -/
def StopsDrained (state : State Data) : Action Data → Prop
  | .stop index => ∀ queue ∈ state.queues[index]?, NothingLeft queue
  | _ => True

instance (state : State Data) (action : Action Data) : Decidable (StopsDrained state action) := by
  cases action <;> dsimp only [StopsDrained] <;> infer_instance

/-! ## One queue -/

/-- Every accepted message is handed over, in a batch or in the channel, in order. -/
def Flows (core : Ordering.State Data) : Prop :=
  core.accepted.map stamp =
    core.published ++ (core.flushing ++ core.batch ++ core.channel).map stamp

/-- The steps of calls and workers keep the messages in order; only `enqueue` accepts, and only
`receive` takes from the channel. -/
theorem flows_step {core next : Ordering.State Data} {action : Ordering.Action Data}
    (unchecked : config.sequenceCheckEnabled = false) (flows : Flows core)
    (stepped : Ordering.step config core action = some next) :
    Flows next ∧ core.accepted <+: next.accepted ∧
      (action ≠ .receive → core.channel.length + next.accepted.length =
        next.channel.length + core.accepted.length) ∧
      (action ≠ .receive → core.batch = [] → next.batch = []) := by
  cases action with
  | allocate topic key message =>
    cases stepped
    exact ⟨flows, List.prefix_refl _, fun _ => rfl, fun _ empty => empty⟩
  | enqueue call =>
    simp only [Ordering.step] at stepped
    split at stepped
    · cases stepped
    · split at stepped
      · cases stepped
        refine ⟨?_, List.prefix_append _ _, fun _ => ?_, fun _ empty => empty⟩
        · simp only [Flows, List.map_append] at flows ⊢
          rw [flows]
          simp only [List.append_assoc]
        · simp only [List.length_append, List.length_singleton]
          omega
      · cases stepped
        exact ⟨flows, List.prefix_refl _, fun _ => rfl, fun _ empty => empty⟩
  | receive =>
    simp only [Ordering.step] at stepped
    split at stepped
    · rename_i ordered rest flushed channel
      rw [Flows, flushed, channel] at flows
      split at stepped <;> cases stepped
      · refine ⟨?_, List.prefix_refl _, fun not => absurd rfl not, fun not => absurd rfl not⟩
        simpa [Flows] using flows
      · refine ⟨?_, List.prefix_refl _, fun not => absurd rfl not, fun not => absurd rfl not⟩
        simpa [Flows, flushed] using flows
    · cases stepped
  | tick =>
    simp only [Ordering.step] at stepped
    split at stepped
    · rename_i flushed
      cases stepped
      refine ⟨?_, List.prefix_refl _, fun _ => rfl, fun _ _ => rfl⟩
      simpa [Flows, flushed] using flows
    · cases stepped
  | flush =>
    simp only [Ordering.step, unchecked, Bool.false_eq_true, if_false] at stepped
    split at stepped
    · cases stepped
    · rename_i ordered rest flushing
      cases stepped
      refine ⟨?_, List.prefix_refl _, fun _ => rfl, fun _ empty => empty⟩
      simpa [Flows, flushing] using flows

/-- A queue whose worker loses nothing. -/
structure Queue.Sound (queue : Queue Data) : Prop where
  flows : Flows queue.core
  owed : queue.owed ≤ queue.core.accepted.length
  left : queue.worker ≠ .running → NothingLeft queue ∧ queue.core.batch = []
  flushed : queue.worker = .stopped → queue.core.flushing = []

variable {queue : Queue Data}

theorem Queue.Sound.step {core : Ordering.State Data} {action : Ordering.Action Data}
    (unchecked : config.sequenceCheckEnabled = false) (sound : queue.Sound)
    (allowed : queue.worker.allows action = true)
    (stepped : Ordering.step config queue.core action = some core) :
    Queue.Sound { queue with core := core } := by
  obtain ⟨flows, grows, channel, batch⟩ := flows_step unchecked sound.flows stepped
  have notReceive : queue.worker ≠ .running → action ≠ .receive := by
    rintro stopped rfl
    exact stopped (of_decide_eq_true allowed)
  refine ⟨flows, Nat.le_trans sound.owed grows.length_le, fun stopped => ?_, fun stopped => ?_⟩
  · obtain ⟨nothingLeft, empty⟩ := sound.left stopped
    have lengths := channel (notReceive stopped)
    refine ⟨?_, batch (notReceive stopped) empty⟩
    unfold NothingLeft at nothingLeft ⊢
    dsimp only
    omega
  · have stopped : queue.worker = .stopped := stopped
    have empty := sound.flushed stopped
    cases action with
    | allocate topic key message =>
      cases stepped
      exact empty
    | enqueue call =>
      simp only [Ordering.step] at stepped
      split at stepped
      · cases stepped
      · split at stepped <;> obtain rfl := Option.some.inj stepped <;> exact empty
    | receive | tick | flush => rw [stopped] at allowed; cases allowed

/-- A stopped worker leaves a drained queue. -/
theorem Queue.Sound.drained (sound : queue.Sound) (stopped : queue.worker = .stopped) :
    Drained queue := by
  obtain ⟨nothingLeft, batch⟩ := sound.left (by rw [stopped]; exact Worker.noConfusion)
  have flows := sound.flows
  rw [Flows, sound.flushed stopped, batch] at flows
  have lengths := congrArg List.length flows
  simp only [List.nil_append, List.length_map, List.length_append] at lengths flows
  have inside : queue.owed ≤ queue.core.published.length := by
    unfold NothingLeft at nothingLeft
    omega
  rw [Drained, List.map_take, flows, List.take_append_of_le_length inside]
  exact List.take_prefix _ _

/-! ## All queues -/

/-- Every queue is sound, workers run until `Close` is called, and the broker is closed after all
workers have stopped. -/
structure Sound (state : State Data) : Prop where
  queues : ∀ queue ∈ state.queues, queue.Sound
  live : state.phase = .notCalled → ∀ queue ∈ state.queues, queue.worker = .running
  closed : state.phase = .brokerClosed → ∀ queue ∈ state.queues, queue.worker = .stopped

variable {state next : State Data}

/-- One queue moves on. -/
theorem Sound.set (sound : Sound state) {index : Nat} {moved : Queue Data}
    (found : state.queues[index]? = some queue) (movedSound : moved.Sound)
    (runs : state.phase = .notCalled → queue.worker = .running → moved.worker = .running)
    (worker : queue.worker = .stopped → moved.worker = .stopped) :
    Sound { state with queues := state.queues.set index moved } where
  queues := by
    intro other member
    rcases List.mem_or_eq_of_mem_set member with old | rfl
    · exact sound.queues other old
    · exact movedSound
  live := by
    intro notCalled other member
    rcases List.mem_or_eq_of_mem_set member with old | rfl
    · exact sound.live notCalled other old
    · exact runs notCalled (sound.live notCalled queue (List.mem_of_getElem? found))
  closed := by
    intro isClosed other member
    rcases List.mem_or_eq_of_mem_set member with old | rfl
    · exact sound.closed isClosed other old
    · exact worker (sound.closed isClosed queue (List.mem_of_getElem? found))

theorem step_sound {action : Action Data} (unchecked : config.sequenceCheckEnabled = false)
    (sound : Sound state) (condition : StopsDrained state action)
    (stepped : step config state action = some next) : Sound next := by
  cases action with
  | newQueue =>
    simp only [step] at stepped
    split at stepped
    · cases stepped
    · rename_i isOpen
      cases stepped
      refine ⟨fun queue member => ?_, fun notCalled queue member => ?_,
        fun isClosed => absurd isClosed isOpen⟩
      · rcases List.mem_append.mp member with old | new
        · exact sound.queues queue old
        · rw [List.mem_singleton.mp new]
          exact ⟨rfl, Nat.zero_le _, fun stopped => absurd rfl stopped,
            (fun impossible => nomatch impossible)⟩
      · rcases List.mem_append.mp member with old | new
        · exact sound.live notCalled queue old
        · rw [List.mem_singleton.mp new]
  | queue index action =>
    simp only [step] at stepped
    split at stepped
    · cases stepped
    · rename_i queue found
      split at stepped
      · rename_i allowed
        obtain ⟨core, coreEq, rfl⟩ := Option.map_eq_some_iff.mp stepped
        exact sound.set found ((sound.queues queue (List.mem_of_getElem? found)).step unchecked
          allowed coreEq) (fun _ runs => runs) fun stopped => stopped
      · cases stepped
  | refuse index call =>
    simp only [step] at stepped
    split at stepped
    · rename_i queue found _
      cases stepped
      obtain ⟨flows, owed, left, flushed⟩ := sound.queues queue (List.mem_of_getElem? found)
      exact sound.set found ⟨flows, owed, left, flushed⟩ (fun _ runs => runs)
        fun stopped => stopped
    · cases stepped
  | beginClose =>
    simp only [step] at stepped
    split at stepped
    · rename_i notCalled
      cases stepped
      refine ⟨fun queue member => ?_, (fun impossible => nomatch impossible),
        (fun impossible => nomatch impossible)⟩
      obtain ⟨before, isBefore, rfl⟩ := List.mem_map.mp member
      have runs := sound.live notCalled before isBefore
      obtain ⟨flows, -, -, flushed⟩ := sound.queues before isBefore
      exact ⟨flows, Nat.le_refl _, fun stopped => absurd runs stopped, flushed⟩
    · cases stepped
  | cancel =>
    simp only [step] at stepped
    split at stepped
    · cases stepped
      exact ⟨sound.queues, (fun impossible => nomatch impossible),
        (fun impossible => nomatch impossible)⟩
    · cases stepped
  | stop index =>
    simp only [step] at stepped
    split at stepped
    · rename_i core owed found cancelled
      split at stepped
      · rename_i empty
        cases stepped
        have before := sound.queues _ (List.mem_of_getElem? found)
        have flows := before.flows
        have nothingLeft := condition _ found
        refine sound.set found ⟨?_, before.owed, fun _ => ⟨nothingLeft, rfl⟩,
          (fun impossible => nomatch impossible)⟩ (fun notCalled => ?_)
          (fun impossible => nomatch impossible)
        · simpa [Flows, empty] using flows
        · rw [notCalled] at cancelled
          cases cancelled
      · cases stepped
    · cases stepped
  | exit index =>
    simp only [step] at stepped
    split at stepped
    · rename_i core owed found
      split at stepped
      · rename_i empty
        cases stepped
        obtain ⟨flows, owed, left, -⟩ := sound.queues _ (List.mem_of_getElem? found)
        exact sound.set found ⟨flows, owed, fun _ => left Worker.noConfusion, fun _ => empty⟩
          (fun _ impossible => nomatch impossible) fun _ => rfl
      · cases stepped
    · cases stepped
  | closeBroker =>
    simp only [step] at stepped
    split at stepped
    · rename_i waited
      cases stepped
      exact ⟨sound.queues, (fun impossible => nomatch impossible), fun _ => waited.2⟩
    · cases stepped

/-- In every run in which workers stop only with a channel that `Close` owes nothing from, every
message accepted before `Close` began has been handed to the broker when `Close` closes it. -/
theorem shutdown_drains (config : Config) (unchecked : config.sequenceCheckEnabled = false)
    (actions : List (Action Data)) (meets : (machine config).Meets StopsDrained start actions)
    (state : State Data) (reached : (machine config).Reaches start actions state)
    (closed : state.phase = .brokerClosed) : ∀ queue ∈ state.queues, Drained queue := by
  have keeps : ∀ (before : State Data) action after out, Sound before → StopsDrained before action →
      (machine config).step before action = some (after, out) → Sound after := by
    intro before action after out sound condition stepped
    obtain ⟨next, nextEq, same⟩ := Option.map_eq_some_iff.mp stepped
    obtain ⟨rfl, -⟩ := Prod.mk.inj same
    exact step_sound unchecked sound condition nextEq
  have initial : Sound (start : State Data) :=
    ⟨by simp [start], by simp [start], (fun impossible => nomatch impossible)⟩
  have sound : Sound state := Machine.reaches_invariant keeps initial meets reached
  intro queue member
  exact (sound.queues queue member).drained (sound.closed closed queue member)

/-! ## Two runs -/

/-- One message, accepted before `Close` begins. -/
def accept : List (Action Unit) :=
  [.newQueue, .queue 0 (.allocate (ascii "t") [] ⟨[], [], [], 0, (), none⟩), .queue 0 (.enqueue 0),
    .beginClose, .cancel]

/-- The configuration of the two runs. -/
def sampleConfig : Config := ⟨10, 10, false⟩

/-- The worker receives the message before it looks at the context again. -/
def receivesFirst : List (Action Unit) :=
  accept ++ [.queue 0 .receive, .stop 0, .queue 0 .flush, .exit 0, .closeBroker]

theorem shutdown_drains_receivesFirst :
    ∃ state, (machine sampleConfig).run start receivesFirst = some state ∧
      ∀ queue ∈ state.queues, Drained queue := by
  have ran : ((machine sampleConfig).run start receivesFirst).map
      (fun state => decide (state.phase = .brokerClosed)) = some true := by decide +kernel
  obtain ⟨state, reached, closed⟩ := Option.map_eq_some_iff.mp ran
  have meets : (machine sampleConfig).Meets StopsDrained start receivesFirst := by
    decide +kernel
  exact ⟨state, reached, shutdown_drains sampleConfig rfl receivesFirst meets state
    ⟨_, List.prefix_refl _, reached⟩ (of_decide_eq_true closed)⟩

/-- The worker finds the context done while the accepted message waits in the channel: it stops,
and the broker is closed without the message. -/
theorem accepted_message_lost :
    ((machine sampleConfig).run start (accept ++ [.stop 0, .exit 0, .closeBroker])).map
      (fun state => decide (state.phase = .brokerClosed ∧
        ¬ ∀ queue ∈ state.queues, Drained queue)) = some true := by
  decide +kernel

end Plumego.PubSub.Ordering.Closing
