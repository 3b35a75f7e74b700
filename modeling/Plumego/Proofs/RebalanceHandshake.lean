/-
Module: Plumego.Proofs.RebalanceHandshake
Purpose: No change of the membership is lost: when no call of `triggerRebalance` is running, the
  last pass has read the effects of every change whose call has returned.
Trusted boundary: as for the rebalances.
Main exports: Covered, Sound, step_sound, no_change_lost
-/
import Plumego.PubSub.Rebalance

namespace Plumego.PubSub.Rebalance

open Plumego.Go Plumego.Lib

/-- The last completed pass read the consumers after the change at a place. -/
def Covered (state : State) (place : Nat) : Prop :=
  ∃ done, done <+: state.changes ∧ state.lastRead = some (consumersAfter done, done) ∧
    place < done.length

/-- A call is about to run a pass, now or after it has seen the pending flag. -/
def Call.Promises (pending : Bool) (call : Call) : Prop :=
  call.phase.runs = true ∧ (call.phase = .rebalanced → pending = true)

/-- The handshake: one call runs the loop exactly while the flag says so, and every call that has
returned is covered or will be. -/
structure Sound (state : State) : Prop where
  consumers : state.consumers = consumersAfter state.changes
  places : ∀ call ∈ state.calls, call.place < state.changes.length
  single : ∀ {first second : Nat} {one other : Call}, state.calls[first]? = some one →
    state.calls[second]? = some other → one.phase.runs = true → other.phase.runs = true →
    first = second
  running : state.rebalanceRunning = true ↔ ∃ call ∈ state.calls, call.phase.runs = true
  read : ∀ call ∈ state.calls, call.phase = .rebalanced → Covered state call.place
  returned : ∀ call ∈ state.calls, call.phase = .returned →
    Covered state call.place ∨ ∃ runner ∈ state.calls, runner.Promises state.rebalancePending

theorem sound_start : Sound start where
  consumers := rfl
  places := by simp [start]
  single := by simp [start]
  running := by simp [start]
  read := by simp [start]
  returned := by simp [start]

variable {state next : State}

theorem Covered.of_eq {place : Nat} (covered : Covered state place)
    (changes : next.changes = state.changes) (lastRead : next.lastRead = state.lastRead) :
    Covered next place := by
  obtain ⟨done, isPrefix, read, inside⟩ := covered
  exact ⟨done, by rwa [changes], by rwa [lastRead], inside⟩

/-- A change adds a call that has not called `triggerRebalance` yet. -/
theorem Sound.change (sound : Sound state) (change : Change)
    (stepped : step state (.change change) = some next) : Sound next := by
  cases stepped
  have covers : ∀ {place}, Covered state place → Covered { state with
      consumers := change.apply state.consumers
      changes := state.changes ++ [change]
      calls := state.calls ++ [⟨state.changes.length, .changed⟩] } place := by
    rintro place ⟨done, isPrefix, read, inside⟩
    exact ⟨done, isPrefix.trans (List.prefix_append _ _), read, inside⟩
  refine ⟨?_, ?_, ?_, ?_, ?_, ?_⟩
  · simp only [consumersAfter, List.foldl_append, List.foldl_cons, List.foldl_nil]
    exact congrArg (change.apply ·) sound.consumers
  · intro call member
    rw [List.length_append, List.length_singleton]
    rcases List.mem_append.mp member with old | new
    · exact Nat.lt_succ_of_lt (sound.places call old)
    · rw [List.mem_singleton.mp new]
      exact Nat.lt_succ_self _
  · intro first second one other firstAt secondAt oneRuns otherRuns
    have known : ∀ {place : Nat} {call : Call},
        (state.calls ++ [⟨state.changes.length, Phase.changed⟩])[place]? = some call →
        call.phase.runs = true → state.calls[place]? = some call := by
      intro place call found runs
      rw [List.getElem?_append] at found
      split at found
      · exact found
      · have last := List.mem_singleton.mp (List.mem_of_getElem? found)
        rw [last] at runs
        cases runs
    exact sound.single (known firstAt oneRuns) (known secondAt otherRuns) oneRuns otherRuns
  · simp [sound.running, Phase.runs]
  · intro call member phase
    rcases List.mem_append.mp member with old | new
    · exact covers (sound.read call old phase)
    · rw [List.mem_singleton.mp new] at phase
      cases phase
  · intro call member phase
    rcases List.mem_append.mp member with old | new
    · rcases sound.returned call old phase with covered | ⟨runner, isCall, promises⟩
      · exact Or.inl (covers covered)
      · exact Or.inr ⟨runner, List.mem_append_left _ isCall, promises⟩
    · rw [List.mem_singleton.mp new] at phase
      cases phase

/-! ## Steps of a call -/

section Moves

variable {call place : Nat} {phase : Phase}

/-- The calls after one of them has moved on. -/
theorem mem_move {moved : Phase} {other : Call}
    (member : other ∈ state.calls.set call ⟨place, moved⟩) :
    other ∈ state.calls ∨ other = ⟨place, moved⟩ :=
  List.mem_or_eq_of_mem_set member

theorem mem_move_self {moved : Phase} (found : state.calls[call]? = some ⟨place, phase⟩) :
    (⟨place, moved⟩ : Call) ∈ state.calls.set call ⟨place, moved⟩ :=
  List.mem_of_getElem? (List.getElem?_set_self (List.getElem?_eq_some_iff.mp found).1)

theorem Sound.places_move (sound : Sound state)
    (found : state.calls[call]? = some ⟨place, phase⟩) {moved : Phase} :
    ∀ other ∈ state.calls.set call ⟨place, moved⟩, other.place < state.changes.length := by
  intro other member
  rcases mem_move member with old | rfl
  · exact sound.places other old
  · exact sound.places ⟨place, phase⟩ (List.mem_of_getElem? found)

/-- While a call runs the loop, all other calls do not. -/
theorem Sound.others (sound : Sound state) (found : state.calls[call]? = some ⟨place, phase⟩)
    (runs : phase.runs = true) {moved : Phase} {other : Call}
    (member : other ∈ state.calls.set call ⟨place, moved⟩) (otherRuns : other.phase.runs = true) :
    other = ⟨place, moved⟩ := by
  obtain ⟨index, isAt⟩ := List.mem_iff_getElem?.mp member
  rw [List.getElem?_set] at isAt
  split at isAt
  · split at isAt
    · exact (Option.some.inj isAt).symm
    · cases isAt
  · rename_i different
    exact absurd (sound.single found isAt runs otherRuns) different

/-- The runner moves on within its loop. -/
theorem Sound.runner (sound : Sound state) (found : state.calls[call]? = some ⟨place, phase⟩)
    (runs : phase.runs = true) {moved : Phase} (calls : next.calls =
      state.calls.set call ⟨place, moved⟩)
    (stillRuns : moved.runs = true) (consumers : next.consumers = state.consumers)
    (changes : next.changes = state.changes)
    (flag : next.rebalanceRunning = state.rebalanceRunning)
    (read : moved = .rebalanced → Covered next place)
    (promise : ∀ other ∈ state.calls, other.phase = .returned → Covered next other.place ∨
      (⟨place, moved⟩ : Call).Promises next.rebalancePending) : Sound next := by
  have isCall := List.mem_of_getElem? found
  refine ⟨by rw [consumers, changes, sound.consumers], ?_, ?_, ?_, ?_, ?_⟩
  · rw [calls, changes]
    exact sound.places_move found
  · rw [calls]
    intro first second one other firstAt secondAt oneRuns otherRuns
    have here : ∀ {index : Nat} {known : Call},
        (state.calls.set call ⟨place, moved⟩)[index]? = some known →
        known.phase.runs = true → index = call := by
      intro index known isAt knownRuns
      by_contra different
      rw [List.getElem?_set_ne (Ne.symm different)] at isAt
      exact different (sound.single isAt found knownRuns runs)
    rw [here firstAt oneRuns, here secondAt otherRuns]
  · rw [flag, calls]
    exact ⟨fun _ => ⟨_, mem_move_self found, stillRuns⟩,
      fun _ => sound.running.mpr ⟨_, isCall, runs⟩⟩
  · rw [calls]
    intro other member isRebalanced
    have same := sound.others found runs member (by rw [isRebalanced]; rfl)
    rw [same] at isRebalanced ⊢
    exact read isRebalanced
  · rw [calls]
    intro other member isReturned
    rcases mem_move member with old | rfl
    · rcases promise other old isReturned with covered | promises
      · exact Or.inl covered
      · exact Or.inr ⟨_, mem_move_self found, promises⟩
    · rw [show moved = .returned from isReturned] at stillRuns
      cases stillRuns

end Moves

theorem Sound.enter (sound : Sound state) {call : Nat}
    (stepped : step state (.enter call) = some next) : Sound next := by
  simp only [step] at stepped
  split at stepped
  case h_2 => cases stepped
  case h_1 place found =>
      have known : ∀ {moved : Phase} {index : Nat} {other : Call},
          (state.calls.set call ⟨place, moved⟩)[index]? = some other → index ≠ call →
          state.calls[index]? = some other := by
        intro moved index other isAt different
        rwa [List.getElem?_set_ne (Ne.symm different)] at isAt
      split at stepped
      · rename_i isRunning
        cases stepped
        obtain ⟨runner, isRunner, runs⟩ := sound.running.mp isRunning
        -- The call that runs the loop is another one, and stays as it is.
        obtain ⟨index, runnerAt⟩ := List.mem_iff_getElem?.mp isRunner
        have different : call ≠ index := by
          rintro rfl
          rw [found] at runnerAt
          rw [← Option.some.inj runnerAt] at runs
          cases runs
        have stays : runner ∈ state.calls.set call ⟨place, .returned⟩ :=
          List.mem_of_getElem? ((List.getElem?_set_ne different).trans runnerAt)
        have moves : ∀ {index : Nat} {other : Call},
            (state.calls.set call ⟨place, .returned⟩)[index]? = some other →
            other.phase.runs = true → state.calls[index]? = some other := by
          intro index other isAt otherRuns
          rw [List.getElem?_set] at isAt
          split at isAt
          · split at isAt
            · rw [← Option.some.inj isAt] at otherRuns
              cases otherRuns
            · cases isAt
          · exact isAt
        refine ⟨sound.consumers, sound.places_move found, ?_, ?_, ?_, ?_⟩
        · intro first second one other firstAt secondAt oneRuns otherRuns
          exact sound.single (moves firstAt oneRuns) (moves secondAt otherRuns) oneRuns otherRuns
        · exact ⟨fun _ => ⟨runner, stays, runs⟩, fun _ => isRunning⟩
        · intro other member isRebalanced
          rcases mem_move member with old | rfl
          · exact (sound.read other old isRebalanced).of_eq rfl rfl
          · cases isRebalanced
        · intro other member isReturned
          exact Or.inr ⟨runner, stays, runs, fun _ => rfl⟩
      · rename_i idle
        cases stepped
        have none : ∀ other ∈ state.calls, other.phase.runs = true → False := fun other member runs =>
          idle (sound.running.mpr ⟨other, member, runs⟩)
        refine ⟨sound.consumers, sound.places_move found, ?_, ?_, ?_, ?_⟩
        · intro first second one other firstAt secondAt oneRuns otherRuns
          have here : ∀ {index : Nat} {runner : Call},
              (state.calls.set call ⟨place, .looping⟩)[index]? = some runner →
              runner.phase.runs = true → index = call := by
            intro index runner isAt runs
            by_contra different
            exact none runner (List.mem_of_getElem? (known isAt different)) runs
          rw [here firstAt oneRuns, here secondAt otherRuns]
        · exact ⟨fun _ => ⟨_, mem_move_self found, rfl⟩, fun _ => rfl⟩
        · intro other member isRebalanced
          rcases mem_move member with old | rfl
          · exact absurd (by rw [isRebalanced]; rfl) (none other old)
          · cases isRebalanced
        · intro other member isReturned
          exact Or.inr ⟨_, mem_move_self found, rfl, fun impossible => nomatch impossible⟩

theorem Sound.finish (sound : Sound state) {call : Nat}
    (stepped : step state (.finish call) = some next) : Sound next := by
  simp only [step] at stepped
  split at stepped
  case h_2 => cases stepped
  case h_1 place found =>
      have covered := sound.read _ (List.mem_of_getElem? found) rfl
      split at stepped
      · cases stepped
        exact sound.runner found rfl rfl rfl rfl rfl rfl (fun impossible => nomatch impossible)
          fun _ _ _ => Or.inr ⟨rfl, fun impossible => nomatch impossible⟩
      · rename_i settled
        cases stepped
        have none : ∀ other ∈ state.calls.set call ⟨place, .returned⟩,
            other.phase.runs = true → False := by
          intro other member runs
          rw [sound.others found rfl member runs] at runs
          cases runs
        refine ⟨sound.consumers, sound.places_move found, ?_, ?_, ?_, ?_⟩
        · intro first second one other firstAt secondAt oneRuns otherRuns
          exact (none one (List.mem_of_getElem? firstAt) oneRuns).elim
        · constructor
          · intro running
            cases running
          · rintro ⟨other, member, runs⟩
            exact (none other member runs).elim
        · intro other member isRebalanced
          exact (none other member (by rw [isRebalanced]; rfl)).elim
        · intro other member isReturned
          rcases mem_move member with old | rfl
          · rcases sound.returned other old isReturned with done | ⟨runner, isRunner, runs, pending⟩
            · exact Or.inl (done.of_eq rfl rfl)
            · -- The runner is this call, and the flag it would need is not set.
              obtain ⟨index, isAt⟩ := List.mem_iff_getElem?.mp isRunner
              obtain rfl := sound.single found isAt rfl runs
              rw [found] at isAt
              cases isAt
              exact absurd (pending rfl) settled
          · exact Or.inl (covered.of_eq rfl rfl)

theorem step_sound (sound : Sound state) (action : Action)
    (stepped : step state action = some next) : Sound next := by
  cases action with
  | change change => exact sound.change change stepped
  | enter call => exact sound.enter stepped
  | finish call => exact sound.finish stepped
  | clear call =>
    simp only [step] at stepped
    split at stepped
    case h_2 => cases stepped
    case h_1 place found =>
        cases stepped
        exact sound.runner found rfl rfl rfl rfl rfl rfl (fun impossible => nomatch impossible)
          fun _ _ _ => Or.inr ⟨rfl, fun impossible => nomatch impossible⟩
  | rebalance call =>
    simp only [step] at stepped
    split at stepped
    case h_2 => cases stepped
    case h_1 place found =>
        cases stepped
        have covers : ∀ other ∈ state.calls, Covered { state.move call place .rebalanced with
            lastRead := some (state.consumers, state.changes) } other.place :=
          fun other member => ⟨state.changes, List.prefix_refl _, by rw [sound.consumers],
            sound.places other member⟩
        exact sound.runner found rfl rfl rfl rfl rfl rfl
          (fun _ => covers _ (List.mem_of_getElem? found))
          fun other member _ => Or.inl (covers other member)

/-- In every state of every interleaving in which no call runs, no rebalance is marked as running,
and the last completed pass read the consumers after every change whose call has returned. -/
theorem no_change_lost (actions : List Action) (state : State)
    (reached : machine.Reaches start actions state)
    (idle : ∀ call ∈ state.calls, call.phase = .changed ∨ call.phase = .returned) :
    state.rebalanceRunning = false ∧
      ∀ call ∈ state.calls, call.phase = .returned → Covered state call.place := by
  have keeps : ∀ before action after out, Sound before → True →
      machine.step before action = some (after, out) → Sound after := by
    intro before action after out sound _ stepped
    obtain ⟨next, nextEq, same⟩ := Option.map_eq_some_iff.mp stepped
    obtain ⟨rfl, -⟩ := Prod.mk.inj same
    exact step_sound sound action nextEq
  have sound : Sound state := Machine.reaches_invariant keeps sound_start
    (Machine.meets_of_forall (fun _ _ _ => trivial) _) reached
  have none : ∀ call ∈ state.calls, call.phase.runs = true → False := by
    intro call member runs
    rcases idle call member with phase | phase
    · rw [phase] at runs
      cases runs
    · rw [phase] at runs
      cases runs
  refine ⟨?_, fun call member isReturned => ?_⟩
  · cases flag : state.rebalanceRunning with
    | false => rfl
    | true =>
      obtain ⟨call, member, runs⟩ := sound.running.mp flag
      exact (none call member runs).elim
  · rcases sound.returned call member isReturned with covered | ⟨runner, isRunner, runs, -⟩
    · exact covered
    · exact (none runner isRunner runs).elim

/-- A second change during the first pass: its call marks the pass as pending and returns, and the
first call runs another pass. -/
def overlapping : List Action :=
  [.change (.join (ascii "a") [ascii "t"]), .enter 0, .clear 0, .rebalance 0,
    .change (.join (ascii "b") [ascii "t"]), .enter 1, .finish 0, .clear 0, .rebalance 0,
    .finish 0]

theorem no_change_lost_overlapping :
    ∃ state, machine.run start overlapping = some state ∧ state.rebalanceRunning = false ∧
      ∀ call ∈ state.calls, call.phase = .returned → Covered state call.place := by
  have ran : (machine.run start overlapping).map (fun state => decide (∀ call ∈ state.calls,
      call.phase = .changed ∨ call.phase = .returned)) = some true := by decide +kernel
  obtain ⟨state, reached, idle⟩ := Option.map_eq_some_iff.mp ran
  exact ⟨state, reached, no_change_lost overlapping state ⟨_, List.prefix_refl _, reached⟩
    (of_decide_eq_true idle)⟩

end Plumego.PubSub.Rebalance
