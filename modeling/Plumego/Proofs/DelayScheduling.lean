/-
Module: Plumego.Proofs.DelayScheduling
Purpose: When the delay scheduler waits for its timer: a loop that never finds its
  earliest task due when it computes its wait always has a timer to wake it, and a
  loop that does find it due can be left with none.
Trusted boundary: as for the scheduler.
Main exports: Watched, Ahead, Moves, moves_of_step, Ticking.step, watched_of_ahead
-/
import Plumego.Webhook.DelayScheduler

namespace Plumego.Webhook.DelayScheduler

open Plumego.Go Plumego.Lib

/-- A loop that is blocked with a task to deliver, and with no wake pending, has its
timer armed or the tick in its channel. -/
def Watched (state : State) : Prop :=
  state.point = .selecting → state.wake = false → state.heap ≠ [] →
    (∃ deadline, state.timer = .armed deadline) ∨ state.timer = .fired

/-- The loop computes its wait while its earliest task is not yet due. -/
def Ahead (state : State) (action : Action) : Prop :=
  action = .wait → ∀ item ∈ state.heap.peek, state.now < item.dueAt

instance (state : State) (action : Action) : Decidable (Ahead state action) :=
  inferInstanceAs (Decidable (action = .wait → ∀ item ∈ state.heap.peek, state.now < item.dueAt))

/-- A blocked loop has a timer that runs or has fired. -/
structure Ticking (state : State) : Prop where
  selecting : state.point = .selecting → state.timer ≠ .stopped
  waited : ∀ nextWait, state.point = .waited nextWait → 0 < nextWait

theorem Ticking.watched {state : State} (ticking : Ticking state) : Watched state := by
  intro selecting _ _
  cases timerEq : state.timer with
  | stopped => exact absurd timerEq (ticking.selecting selecting)
  | armed deadline => exact Or.inl ⟨deadline, rfl⟩
  | fired => exact Or.inr rfl

theorem ticking_start (now : Time) : Ticking (start now) :=
  ⟨nofun, nofun⟩

/-- The loop has to wait for a task that is not yet due. -/
theorem nextWaitDuration_pos {heap : DelayHeap} {now : Time}
    (ahead : ∀ item ∈ heap.peek, now < item.dueAt) : 0 < nextWaitDuration heap now := by
  unfold nextWaitDuration
  cases headEq : heap.peek with
  | none => exact (by decide : (0 : Int) < 1000000000)
  | some item =>
    have later : now < item.dueAt := ahead item headEq
    simp only [if_neg (not_le.mpr later)]
    exact timeSub_pos later

/-! ## What a step does -/

/-- The steps of the loop, and of what goes on beside it. -/
inductive Moves (state : State) : Action → State → Prop where
  | schedule (item : DelayedItem) :
      Moves state (.schedule item)
        { state with heap := state.heap.push item, signalling := state.signalling + 1 }
  | signal {others : Nat} (calls : state.signalling = others + 1) :
      Moves state .signal { state with wake := true, signalling := others }
  | advance (amount : Nat) : Moves state (.advance amount) { state with now := state.now + amount }
  | expire {deadline : Time} (armed : state.timer = .armed deadline) (passed : deadline ≤ state.now) :
      Moves state .expire { state with timer := .fired }
  | wait (top : state.point = .top) :
      Moves state .wait { state with point := .waited (nextWaitDuration state.heap state.now) }
  | arm {nextWait : Int} (waited : state.point = .waited nextWait) :
      Moves state .arm
        { state with
          timer := if 0 < nextWait then .armed (state.now + nextWait) else state.timer
          point := .selecting }
  | receiveWake (selecting : state.point = .selecting) (pending : state.wake = true) :
      Moves state .receiveWake { state with wake := false, timer := .stopped, point := .top }
  | receiveTick (selecting : state.point = .selecting) (ticked : state.timer = .fired) :
      Moves state .receiveTick { state with timer := .stopped, point := .flushing }
  | flushed (flushing : state.point = .flushing)
      (ahead : ∀ item ∈ state.heap.peek, state.now < item.dueAt) :
      Moves state .flush { state with point := .top }
  | flush {item : DelayedItem} {later : DelayHeap} (flushing : state.point = .flushing)
      (heap : state.heap = item :: later) (due : item.dueAt ≤ state.now) :
      Moves state .flush { state with heap := later, enqueued := state.enqueued ++ [item] }

/-- A step that the model takes is one of these. -/
theorem moves_of_step {state next : State} {action : Action}
    (stepEq : step state action = some next) : Moves state action next := by
  cases action with
  | schedule item =>
    cases stepEq
    exact .schedule item
  | signal =>
    cases calls : state.signalling with
    | zero => simp [step, calls] at stepEq
    | succ others =>
      simp only [step, calls, Option.some.injEq] at stepEq
      exact stepEq ▸ .signal calls
  | advance amount =>
    cases stepEq
    exact .advance amount
  | expire =>
    cases timerEq : state.timer with
    | stopped | fired => simp [step, timerEq] at stepEq
    | armed deadline =>
      simp only [step, timerEq, Option.ite_none_right_eq_some, Option.some.injEq] at stepEq
      exact stepEq.2 ▸ .expire timerEq stepEq.1
  | wait =>
    simp only [step, Option.ite_none_right_eq_some, Option.some.injEq] at stepEq
    exact stepEq.2 ▸ .wait stepEq.1
  | arm =>
    cases pointEq : state.point with
    | waited nextWait =>
      simp only [step, pointEq, Option.some.injEq] at stepEq
      exact stepEq ▸ .arm pointEq
    | top | selecting | flushing => simp [step, pointEq] at stepEq
  | receiveWake =>
    simp only [step, Option.ite_none_right_eq_some, Option.some.injEq] at stepEq
    exact stepEq.2 ▸ .receiveWake stepEq.1.1 stepEq.1.2
  | receiveTick =>
    simp only [step, Option.ite_none_right_eq_some, Option.some.injEq] at stepEq
    exact stepEq.2 ▸ .receiveTick stepEq.1.1 stepEq.1.2
  | flush =>
    simp only [step, Option.ite_none_right_eq_some] at stepEq
    obtain ⟨flushing, result⟩ := stepEq
    split at result
    · rename_i empty
      refine Option.some.inj result ▸ .flushed flushing ?_
      rw [empty]
      exact nofun
    · rename_i item later heapEq
      split at result
      · rename_i ahead
        refine Option.some.inj result ▸ .flushed flushing ?_
        rw [heapEq]
        rintro other ⟨⟩
        exact ahead
      · rename_i due
        exact Option.some.inj result ▸ .flush flushing heapEq (not_lt.mp due)

/-! ## The timer of a blocked loop -/

/-- A step that meets the condition keeps a timer for a blocked loop. -/
theorem Ticking.step {state next : State} {action : Action} (ticking : Ticking state)
    (ahead : Ahead state action) (moves : Moves state action next) : Ticking next := by
  cases moves with
  | schedule item | signal calls | advance amount => exact ⟨ticking.selecting, ticking.waited⟩
  | expire armed passed => exact ⟨fun _ => nofun, ticking.waited⟩
  | wait top =>
    refine ⟨nofun, fun nextWait waited => ?_⟩
    rw [← Point.waited.inj waited]
    exact nextWaitDuration_pos (ahead rfl)
  | arm waited =>
    refine ⟨fun _ => ?_, nofun⟩
    simp only [if_pos (ticking.waited _ waited)]
    exact nofun
  | receiveWake selecting pending | receiveTick selecting ticked | flushed flushing later =>
    exact ⟨nofun, nofun⟩
  | flush flushing heap due =>
    exact ⟨fun selecting => absurd (flushing.symm.trans selecting) nofun,
      fun _ waited => absurd (flushing.symm.trans waited) nofun⟩

theorem moves_of_machine {state next : State} {action : Action} {out : Unit}
    (stepEq : machine.step state action = some (next, out)) : Moves state action next := by
  obtain ⟨result, stepped, same⟩ := Option.map_eq_some_iff.mp stepEq
  cases same
  exact moves_of_step stepped

/-- In a run whose loop never finds its earliest task due when it computes its wait,
a blocked loop with a task to deliver has its timer armed or fired. -/
theorem watched_of_ahead {now : Time} {actions : List Action} {state : State}
    (ahead : machine.Meets Ahead (start now) actions)
    (reached : machine.Reaches (start now) actions state) : Watched state := by
  have ticking : Ticking state := by
    refine Machine.reaches_invariant ?_ (ticking_start now) ahead reached
    intro before action after out holds condition stepEq
    exact holds.step condition (moves_of_machine stepEq)
  exact ticking.watched

/-- A task that is scheduled for later is watched. -/
theorem watched_later :
    machine.Meets Ahead (start 0)
      [.schedule ⟨5, ascii "delivery"⟩, .wait, .arm, .signal, .receiveWake, .wait, .arm] ∧
    Watched ⟨0, [⟨5, ascii "delivery"⟩], false, .armed 5, .selecting, 0, []⟩ :=
  have ahead : machine.Meets Ahead (start 0)
      [.schedule ⟨5, ascii "delivery"⟩, .wait, .arm, .signal, .receiveWake, .wait, .arm] := by
    decide
  ⟨ahead, watched_of_ahead ahead ⟨_, List.prefix_rfl, by decide⟩⟩

/-- A task that is due when it is scheduled leaves the loop blocked with a stopped
timer and no wake. -/
theorem stranded_past_task :
    machine.Reaches (start 0)
      [.schedule ⟨0, ascii "delivery"⟩, .signal, .wait, .arm, .receiveWake, .wait, .arm]
      ⟨0, [⟨0, ascii "delivery"⟩], false, .stopped, .selecting, 0, []⟩ ∧
    ¬ Watched ⟨0, [⟨0, ascii "delivery"⟩], false, .stopped, .selecting, 0, []⟩ := by
  refine ⟨⟨_, List.prefix_rfl, by decide⟩, fun watched => ?_⟩
  rcases watched rfl rfl (List.cons_ne_nil _ _) with ⟨deadline, armed⟩ | fired
  · cases armed
  · cases fired

end Plumego.Webhook.DelayScheduler
