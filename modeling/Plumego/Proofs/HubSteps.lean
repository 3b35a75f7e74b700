/-
Module: Plumego.Proofs.HubSteps
Purpose: What one step of a call and one step of a worker can do to the hub, said once for all the
  results about it.
Trusted boundary: none
Main exports: Stage.joins, Stage.stops, Stage.counted, Shrinks, Moves, advance_moves, Works, work_works
-/
import Plumego.Websocket.Hub

namespace Plumego.Websocket

open Plumego.Go

/-- A `TryJoin` that has found the hub running and has not come to its locked section. -/
def Stage.joins : Stage → Bool
  | .looking .. | .limiting .. | .entering .. => true
  | _ => false

/-- The `Stop` that stops the hub, from there on. -/
def Stage.stops : Stage → Bool
  | .closing | .waiting | .clearing | .returned (.stopped true) => true
  | _ => false

/-- How many jobs a broadcast has counted as enqueued. -/
def Stage.counted : Stage → Nat
  | .sending _ _ _ _ result | .returned (.broadcast result) => result.enqueued
  | _ => 0

/-- What a step can do to the rooms without a new registration. -/
inductive Shrinks (hub : Rooms) : Rooms → Prop where
  | same : Shrinks hub hub
  | clear : Shrinks hub clearRooms
  | leave (room : Bytes) (conn : Nat) : Shrinks hub (leaveLocked hub room conn)
  | remove (conn : Nat) : Shrinks hub (removeConnLocked hub conn)

/-- What a step of a call can do to the hub, and where the call is then. -/
inductive Moves (config : HubConfig) (hub : Hub) : Stage → Hub → Stage → Prop where
  | plain {stage later : Stage} {rooms : Rooms} (shrinks : Shrinks hub.rooms rooms)
      (before : stage.stops = false) (after : later.stops = false)
      (reading : later.reads = true → stage.reads = true ∨ hub.stopped = false)
      (joining : later.joins = true → stage.joins = true ∨ hub.stopped = false)
      (counting : later.counted = stage.counted) :
      Moves config hub stage { hub with rooms := rooms } later
  | join {stage : Stage} {rooms : Rooms} {room : Bytes} {conn : Nat} {failure : Option GoError}
      (joins : stage.joins = true)
      (joined : tryJoinLocked config hub.rooms room conn = some (rooms, failure)) :
      Moves config hub stage { hub with rooms := rooms } (.returned (.joined failure))
  | enqueue {stage later : Stage} (job : Job) (reads : stage.reads = true)
      (readsOn : later.reads = true) (counting : later.counted = stage.counted + 1) :
      Moves config hub stage
        { hub with jobQueue := hub.jobQueue ++ [job], enqueued := hub.enqueued ++ [job] } later
  | stop (running : hub.stopped = false) :
      Moves config hub (.called .stop) { hub with stopped := true } .closing
  | close (unread : hub.calls.any Stage.reads = false) :
      Moves config hub .closing { hub with quit := true } .waiting
  | wait (exited : ∀ worker ∈ hub.workers, worker = .exited) : Moves config hub .waiting hub .clearing
  | clear : Moves config hub .clearing { hub with rooms := clearRooms } (.returned (.stopped true))

variable {config : HubConfig} {hub after : Hub} {index : Nat} {choice : Choice} {stage : Stage}

/-- A step that leaves the hub as it is, to a stage that neither reads nor joins. -/
theorem quiet_moves {later : Stage} (before : stage.stops = false)
    (quiet : (later.stops || later.reads || later.joins) = false)
    (counting : later.counted = stage.counted) :
    ∃ moved next, Moves config hub stage moved next ∧ hub.goTo index later = moved.goTo index next := by
  simp only [Bool.or_eq_false_iff] at quiet
  obtain ⟨⟨stops, reads⟩, joins⟩ := quiet
  refine ⟨hub, later, .plain .same before stops ?_ ?_ counting, rfl⟩
  · exact fun reading => absurd (reads.symm.trans reading) Bool.false_ne_true
  · exact fun joining => absurd (joins.symm.trans joining) Bool.false_ne_true

/-- A step of a call that goes on as before. -/
theorem Moves.onward {later : Stage} (before : stage.stops = false) (stops : later.stops = false)
    (reads : stage.reads = later.reads) (joins : stage.joins = later.joins)
    (counting : later.counted = stage.counted) : Moves config hub stage hub later :=
  .plain .same before stops (fun reading => .inl (reads.trans reading))
    (fun joining => .inl (joins.trans joining)) counting

/-- A first step of a call that has found the hub running. -/
theorem Moves.running {later : Stage} (before : stage.stops = false) (stops : later.stops = false)
    (running : hub.stopped = false) (counting : later.counted = stage.counted) :
    Moves config hub stage hub later :=
  .plain .same before stops (fun _ => .inr running) (fun _ => .inr running) counting

theorem begin_moves (config : HubConfig) (hub : Hub) (index : Nat) (call : Call) :
    ∃ moved later, Moves config hub (.called call) moved later ∧
      begin config hub index call = moved.goTo index later := by
  cases call with
  | tryJoin room conn =>
    unfold begin
    dsimp only
    cases running : hub.stopped with
    | true => exact quiet_moves rfl rfl rfl
    | false =>
      rw [if_neg Bool.false_ne_true]
      cases config.roomNameValidator room with
      | some failure => exact quiet_moves rfl rfl rfl
      | none =>
        cases conn with
        | none => exact quiet_moves rfl rfl rfl
        | some conn => exact ⟨hub, _, .running rfl rfl running (by rfl), rfl⟩
  | leave room conn =>
    unfold begin
    dsimp only
    cases conn with
    | none => exact quiet_moves rfl rfl rfl
    | some conn =>
      cases config.roomNameValidator room with
      | some failure => exact quiet_moves rfl rfl rfl
      | none =>
        refine ⟨_, _, ?_, rfl⟩
        exact .plain (.leave room conn) rfl rfl Bool.noConfusion Bool.noConfusion rfl
  | removeConn conn =>
    cases conn with
    | none => exact quiet_moves rfl rfl rfl
    | some conn =>
      exact ⟨_, _, .plain (.remove conn) rfl rfl Bool.noConfusion Bool.noConfusion (by rfl), rfl⟩
  | tryBroadcastRoom room op data =>
    rw [begin]
    split
    · exact quiet_moves rfl rfl rfl
    · split
      · exact quiet_moves rfl rfl rfl
      · exact quiet_moves rfl rfl rfl
  | tryBroadcastAll op data =>
    rw [begin]
    split
    · exact quiet_moves rfl rfl rfl
    · exact quiet_moves rfl rfl rfl
  | stop =>
    rw [begin]
    split
    · exact quiet_moves rfl rfl rfl
    · rename_i running
      exact ⟨_, _, .stop (Bool.eq_false_iff.mpr running), rfl⟩
  | shutdown => exact quiet_moves rfl rfl rfl

/-- Every step of a call is one of the moves. -/
theorem advance_moves (went : advance config hub index choice stage = some after) :
    ∃ moved later, Moves config hub stage moved later ∧ after = moved.goTo index later := by
  cases stage with
  | called call =>
    cases went
    exact begin_moves config hub index call
  | looking room conn =>
    rw [advance] at went
    split at went
    · cases went
      exact quiet_moves rfl rfl rfl
    · cases went
      refine ⟨hub, _, ?_, rfl⟩
      exact .onward rfl rfl rfl rfl rfl
  | limiting room conn =>
    rw [advance] at went
    split at went
    · cases went
      refine ⟨hub, _, ?_, rfl⟩
      exact .onward rfl rfl rfl rfl rfl
    · cases went
      exact quiet_moves rfl rfl rfl
  | entering room conn =>
    obtain ⟨⟨rooms, failure⟩, joined, rfl⟩ := Option.map_eq_some_iff.mp went
    exact ⟨_, _, .join rfl joined, rfl⟩
  | collecting room op data =>
    rw [advance] at went
    dsimp only at went
    split at went
    · split at went
      · cases went
        exact quiet_moves rfl rfl rfl
      · cases went
        exact quiet_moves rfl rfl rfl
    · cases went
  | dispatching conns op data skipped =>
    rw [advance] at went
    split at went
    · cases went
      exact quiet_moves rfl rfl rfl
    · rename_i running
      cases went
      exact ⟨hub, _, .running rfl rfl (Bool.eq_false_iff.mpr running) (by rfl), rfl⟩
  | sending conns op data skipped result =>
    cases conns with
    | nil =>
      cases went
      exact quiet_moves rfl rfl rfl
    | cons conn conns =>
      rw [advance] at went
      split at went
      · cases went
        refine ⟨hub, _, ?_, rfl⟩
        exact .onward rfl rfl rfl rfl rfl
      · split at went
        · cases went
          exact ⟨_, _, .enqueue _ rfl rfl rfl, rfl⟩
        · cases went
          refine ⟨hub, _, ?_, rfl⟩
          exact .onward rfl rfl rfl rfl rfl
  | closingConns conns =>
    cases conns with
    | nil =>
      cases went
      exact ⟨_, _, .plain .clear rfl rfl Bool.noConfusion Bool.noConfusion (by rfl), rfl⟩
    | cons conn conns =>
      rw [advance] at went
      split at went
      · cases went
        exact quiet_moves rfl rfl rfl
      · cases went
        exact quiet_moves rfl rfl rfl
  | closing =>
    rw [advance] at went
    split at went
    · cases went
    · rename_i unread
      cases went
      exact ⟨_, _, .close (Bool.eq_false_iff.mpr unread), rfl⟩
  | waiting =>
    rw [advance] at went
    split at went
    · rename_i exited
      cases went
      refine ⟨hub, _, .wait fun worker member => ?_, rfl⟩
      exact of_decide_eq_true (List.all_eq_true.mp exited worker member)
    · cases went
  | clearing =>
    cases went
    exact ⟨_, _, .clear, rfl⟩
  | returned outcome => cases went

/-- What a step of a worker can do to the hub, and where the worker is then. -/
inductive Works (hub : Hub) : Worker → Hub → Worker → Prop where
  | receive {job : Job} {jobs : List Job} (queue : hub.jobQueue = job :: jobs) :
      Works hub .idle { hub with jobQueue := jobs } (.writing job)
  | write (job : Job) : Works hub (.writing job) { hub with written := hub.written ++ [job] } .idle
  | quit (quits : hub.quit = true) : Works hub .idle hub .draining
  | drain {job : Job} {jobs : List Job} (queue : hub.jobQueue = job :: jobs) :
      Works hub .draining { hub with jobQueue := jobs } (.drainWriting job)
  | drainWrite (job : Job) :
      Works hub (.drainWriting job) { hub with written := hub.written ++ [job] } .draining
  | exit (empty : hub.jobQueue = []) : Works hub .draining hub .exited

theorem work_works {worker : Worker} {quits : Bool} (went : work hub index quits worker = some after) :
    ∃ moved later, Works hub worker moved later ∧ after = moved.workerGoesTo index later := by
  cases worker with
  | idle =>
    rw [work] at went
    split at went
    · split at went
      · rename_i closed
        cases went
        exact ⟨hub, _, .quit closed, rfl⟩
      · cases went
    · split at went
      · cases went
      · rename_i queue
        cases went
        exact ⟨_, _, .receive queue, rfl⟩
  | writing job =>
    cases went
    exact ⟨_, _, .write job, rfl⟩
  | draining =>
    rw [work] at went
    split at went
    · rename_i empty
      cases went
      exact ⟨hub, _, .exit empty, rfl⟩
    · rename_i queue
      cases went
      exact ⟨_, _, .drain queue, rfl⟩
  | drainWriting job =>
    cases went
    exact ⟨_, _, .drainWrite job, rfl⟩
  | exited => cases went

end Plumego.Websocket
