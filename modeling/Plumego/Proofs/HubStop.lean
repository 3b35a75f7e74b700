/-
Module: Plumego.Proofs.HubStop
Purpose: What holds once the `Stop` that stops the hub has returned, over every interleaving: all
  jobs that were enqueued have been written once, and the rooms are empty unless a `TryJoin` was
  under way when they were cleared.
Trusted boundary: none
Main exports: Worker.held, Drains, Drains.step, enqueued_counted, Cleared, Cleared.step, stop_final
-/
import Plumego.Proofs.HubRooms

namespace Plumego.Websocket

open Plumego.Go Plumego.Lib

variable {config : HubConfig} {hub after moved : Hub} {index : Nat} {stage later : Stage}

/-! ## Jobs -/

/-- The job that a worker has received and not yet passed on. -/
def Worker.held : Worker → List Job
  | .writing job | .drainWriting job => [job]
  | _ => []

/-- A worker that has seen that the hub quits. -/
def Worker.quits : Worker → Bool
  | .draining | .drainWriting _ | .exited => true
  | _ => false

/-- The `Stop` that stops the hub, once the workers have exited. -/
def Stage.waited : Stage → Bool
  | .clearing | .returned (.stopped true) => true
  | _ => false

/-- Where the jobs are, and what the stages of the shutdown mean. -/
structure Drains (hub : Hub) : Prop where
  jobs : hub.enqueued.Perm (hub.written ++ (hub.workers.flatMap Worker.held ++ hub.jobQueue))
  someWorker : hub.workers ≠ []
  quitting : hub.quit = true → hub.stopped = true
  stopping : ∀ stage ∈ hub.calls, stage.stops = true → hub.stopped = true
  unread : hub.quit = true → ∀ stage ∈ hub.calls, stage.reads = false
  draining : ∀ worker ∈ hub.workers, worker.quits = true → hub.quit = true
  empty : .exited ∈ hub.workers → hub.jobQueue = []
  waited : ∀ stage ∈ hub.calls, stage.waited = true → ∀ worker ∈ hub.workers, worker = .exited

theorem drains_newHub (config : HubConfig) : Drains (newHub config) where
  jobs := by
    have idle : (List.replicate config.workers Worker.idle).flatMap Worker.held = [] :=
      List.flatMap_eq_nil_iff.mpr fun worker member => by rw [List.eq_of_mem_replicate member]; rfl
    show List.Perm [] ([] ++ ((List.replicate config.workers Worker.idle).flatMap Worker.held ++ []))
    rw [idle]
    exact List.Perm.refl _
  someWorker := fun none => by
    have workers := config.someWorker
    have length := congrArg List.length none
    rw [newHub, List.length_replicate] at length
    exact absurd length (Nat.ne_of_gt workers)
  quitting := Bool.noConfusion
  stopping := List.forall_mem_nil _
  unread := Bool.noConfusion
  draining := fun worker member quits => by
    rw [List.eq_of_mem_replicate member] at quits
    cases quits
  empty := fun _ => rfl
  waited := List.forall_mem_nil _

theorem stops_of_waited (waited : stage.waited = true) : stage.stops = true := by
  cases stage with
  | returned outcome =>
    cases outcome with
    | stopped first =>
      cases first with
      | true => rfl
      | false => cases waited
    | _ => cases waited
  | clearing => rfl
  | _ => cases waited

/-- A call that goes on to a stage of which the invariant holds keeps it. -/
theorem Drains.goTo (drains : Drains hub)
    (stopping : later.stops = true → hub.stopped = true)
    (unread : hub.quit = true → later.reads = false)
    (waited : later.waited = true → ∀ worker ∈ hub.workers, worker = .exited) :
    Drains (hub.goTo index later) where
  jobs := drains.jobs
  someWorker := drains.someWorker
  quitting := drains.quitting
  draining := drains.draining
  empty := drains.empty
  stopping := fun other member => by
    rcases List.mem_or_eq_of_mem_set member with old | rfl
    · exact drains.stopping other old
    · exact stopping
  unread := fun quit other member => by
    rcases List.mem_or_eq_of_mem_set member with old | rfl
    · exact drains.unread quit other old
    · exact unread quit
  waited := fun other member => by
    rcases List.mem_or_eq_of_mem_set member with old | rfl
    · exact drains.waited other old
    · exact waited

theorem Drains.rooms (drains : Drains hub) (rooms : Rooms) : Drains { hub with rooms := rooms } :=
  ⟨drains.jobs, drains.someWorker, drains.quitting, drains.stopping, drains.unread, drains.draining,
    drains.empty, drains.waited⟩

theorem Drains.moves (drains : Drains hub) (member : stage ∈ hub.calls)
    (moves : Moves config hub stage moved later) : Drains (moved.goTo index later) := by
  cases moves with
  | plain shrinks before calm reading joining =>
    refine (drains.rooms _).goTo (fun stops => ?_) (fun quit => ?_) fun waited => ?_
    · rw [calm] at stops
      cases stops
    · rw [Bool.eq_false_iff]
      intro reads
      rcases reading reads with already | running
      · rw [drains.unread quit stage member] at already
        cases already
      · rw [drains.quitting quit] at running
        cases running
    · rw [stops_of_waited waited] at calm
      cases calm
  | join joins joined => exact (drains.rooms _).goTo Bool.noConfusion (fun _ => rfl) Bool.noConfusion
  | enqueue job reads readsOn =>
    -- the job is enqueued under the lifecycle lock, so the hub has not quit
    have running : hub.quit = false := by
      rw [Bool.eq_false_iff]
      intro quit
      rw [drains.unread quit stage member] at reads
      cases reads
    have calm : later.stops = false := by
      cases later with
      | sending => rfl
      | _ => cases readsOn
    have enqueued : Drains { hub with
        jobQueue := hub.jobQueue ++ [job], enqueued := hub.enqueued ++ [job] } := by
      refine ⟨?_, drains.someWorker, drains.quitting, drains.stopping, drains.unread, drains.draining,
        fun exited => ?_, drains.waited⟩
      · have added := drains.jobs.append_right [job]
        rwa [List.append_assoc, List.append_assoc] at added
      · have quit := drains.draining .exited exited rfl
        rw [running] at quit
        cases quit
    refine enqueued.goTo (fun stops => ?_) (fun quit => ?_) fun waited => ?_
    · rw [calm] at stops
      cases stops
    · rw [running] at quit
      cases quit
    · rw [stops_of_waited waited] at calm
      cases calm
  | stop running =>
    have stopped : Drains { hub with stopped := true } :=
      ⟨drains.jobs, drains.someWorker, fun _ => rfl, fun _ _ _ => rfl, drains.unread, drains.draining,
        drains.empty, drains.waited⟩
    exact stopped.goTo (fun _ => rfl) (fun _ => rfl) Bool.noConfusion
  | close unread =>
    have stopped := drains.stopping .closing member rfl
    have quit : Drains { hub with quit := true } :=
      ⟨drains.jobs, drains.someWorker, fun _ => stopped, drains.stopping,
        fun _ other inside => Bool.eq_false_iff.mpr (List.any_eq_false.mp unread other inside),
        fun _ _ _ => rfl, drains.empty, drains.waited⟩
    exact quit.goTo (fun _ => stopped) (fun _ => rfl) Bool.noConfusion
  | wait exited =>
    exact drains.goTo (fun _ => drains.stopping .waiting member rfl) (fun _ => rfl) fun _ => exited
  | clear =>
    exact (drains.rooms clearRooms).goTo (fun _ => drains.stopping .clearing member rfl) (fun _ => rfl)
      fun _ => drains.waited .clearing member rfl

/-! ## Workers -/

/-- A worker that has not exited keeps the `Stop` waiting. -/
theorem Drains.not_waited (drains : Drains hub) {worker : Worker} (member : worker ∈ hub.workers)
    (busy : worker ≠ .exited) (stage : Stage) (called : stage ∈ hub.calls) : stage.waited = false := by
  rw [Bool.eq_false_iff]
  exact fun waited => busy (drains.waited stage called waited worker member)

/-- What one worker holds, and the others. -/
theorem held_set {worker : Worker} (next : Worker) (found : hub.workers[index]? = some worker) :
    ∃ others : List Job, (hub.workers.flatMap Worker.held).Perm (worker.held ++ others) ∧
      ((hub.workers.set index next).flatMap Worker.held).Perm (next.held ++ others) := by
  obtain ⟨inside, rfl⟩ := List.getElem?_eq_some_iff.mp found
  obtain ⟨front, back, split, -, changed⟩ := @List.exists_of_set _ _ next _ inside
  refine ⟨front.flatMap Worker.held ++ back.flatMap Worker.held, ?_, ?_⟩
  · conv_lhs => rw [split]
    rw [List.flatMap_append, List.flatMap_cons, ← List.append_assoc, ← List.append_assoc]
    exact List.perm_append_comm.append_right _
  · rw [changed, List.flatMap_append, List.flatMap_cons, ← List.append_assoc, ← List.append_assoc]
    exact List.perm_append_comm.append_right _

/-- A worker that goes on keeps the invariant if it does so for the jobs. -/
theorem Drains.workerGoesTo (drains : Drains hub) {worker next : Worker}
    (found : hub.workers[index]? = some worker) (busy : worker ≠ .exited) (written jobQueue : List Job)
    (jobs : ∀ others, hub.enqueued.Perm (hub.written ++ (worker.held ++ others ++ hub.jobQueue)) →
      hub.enqueued.Perm (written ++ (next.held ++ others ++ jobQueue)))
    (draining : next.quits = true → hub.quit = true)
    (shorter : hub.jobQueue = [] → jobQueue = []) (empty : next = .exited → jobQueue = []) :
    Drains (Hub.workerGoesTo { hub with written := written, jobQueue := jobQueue } index next) where
  jobs := by
    obtain ⟨others, before, now⟩ := held_set next found
    have same := jobs others (drains.jobs.trans ((before.append_right _).append_left _))
    exact same.trans ((now.symm.append_right _).append_left _)
  someWorker := fun none => by
    have length := congrArg List.length none
    rw [Hub.workerGoesTo, List.length_set] at length
    exact drains.someWorker (List.length_eq_zero_iff.mp length)
  quitting := drains.quitting
  stopping := drains.stopping
  unread := drains.unread
  draining := fun other member => by
    rcases List.mem_or_eq_of_mem_set member with old | rfl
    · exact drains.draining other old
    · exact draining
  empty := fun member => by
    rcases List.mem_or_eq_of_mem_set member with old | isNext
    · exact shorter (drains.empty old)
    · exact empty isNext.symm
  waited := fun stage called waited => by
    have not := drains.not_waited (List.mem_of_getElem? found) busy stage called
    rw [not] at waited
    cases waited

theorem Drains.works (drains : Drains hub) {worker next : Worker}
    (found : hub.workers[index]? = some worker) (works : Works hub worker moved next) :
    Drains (moved.workerGoesTo index next) := by
  cases works with
  | receive queue =>
    refine drains.workerGoesTo found Worker.noConfusion hub.written _ (fun others jobs => ?_)
      Bool.noConfusion (fun none => ?_) Worker.noConfusion
    · rw [queue] at jobs
      refine jobs.trans (List.Perm.append_left _ ?_)
      exact List.perm_middle
    · rw [queue] at none
      cases none
  | write job =>
    refine drains.workerGoesTo found Worker.noConfusion _ hub.jobQueue (fun others jobs => ?_)
      Bool.noConfusion id Worker.noConfusion
    rw [List.append_assoc]
    exact jobs
  | quit quits =>
    exact drains.workerGoesTo found Worker.noConfusion hub.written hub.jobQueue
      (fun _ jobs => jobs) (fun _ => quits) id Worker.noConfusion
  | drain queue =>
    have quit := drains.draining .draining (List.mem_of_getElem? found) rfl
    refine drains.workerGoesTo found Worker.noConfusion hub.written _ (fun others jobs => ?_)
      (fun _ => quit) (fun none => ?_) Worker.noConfusion
    · rw [queue] at jobs
      refine jobs.trans (List.Perm.append_left _ ?_)
      exact List.perm_middle
    · rw [queue] at none
      cases none
  | drainWrite job =>
    have quit := drains.draining (.drainWriting job) (List.mem_of_getElem? found) rfl
    refine drains.workerGoesTo found Worker.noConfusion _ hub.jobQueue (fun others jobs => ?_)
      (fun _ => quit) id Worker.noConfusion
    rw [List.append_assoc]
    exact jobs
  | exit empty =>
    have quit := drains.draining .draining (List.mem_of_getElem? found) rfl
    exact drains.workerGoesTo found Worker.noConfusion hub.written hub.jobQueue
      (fun _ jobs => jobs) (fun _ => quit) id fun _ => empty

/-! ## Runs -/

theorem Drains.step {op : HubOp} (drains : Drains hub) (stepped : hubStep config hub op = some after) :
    Drains after := by
  cases op with
  | call call =>
    cases stepped
    have called : ∀ stage ∈ hub.calls ++ [Stage.called call], stage ∈ hub.calls ∨
        stage = .called call := fun stage member => by
      rw [List.mem_append, List.mem_singleton] at member
      exact member
    refine ⟨drains.jobs, drains.someWorker, drains.quitting, fun stage member stops => ?_,
      fun quit stage member => ?_, drains.draining, drains.empty, fun stage member waited => ?_⟩
    · rcases called stage member with old | rfl
      · exact drains.stopping stage old stops
      · cases stops
    · rcases called stage member with old | rfl
      · exact drains.unread quit stage old
      · rfl
    · rcases called stage member with old | rfl
      · exact drains.waited stage old waited
      · cases waited
  | advance index choice =>
    obtain ⟨stage, found, went⟩ := Option.bind_eq_some_iff.mp stepped
    obtain ⟨moved, later, moves, rfl⟩ := advance_moves went
    exact drains.moves (List.mem_of_getElem? found) moves
  | work index quits =>
    obtain ⟨worker, found, went⟩ := Option.bind_eq_some_iff.mp stepped
    obtain ⟨moved, next, works, rfl⟩ := work_works went
    exact drains.works found works

theorem Moves.counted {moved : Hub} {later : Stage} (moves : Moves config hub stage moved later) :
    moved.calls = hub.calls ∧
      later.counted + hub.enqueued.length = stage.counted + moved.enqueued.length := by
  cases moves with
  | plain _ _ _ _ _ counting => exact ⟨rfl, by rw [counting]⟩
  | join joins => cases stage <;> first | exact ⟨rfl, rfl⟩ | cases joins
  | enqueue job _ _ counting =>
    refine ⟨rfl, ?_⟩
    rw [counting, List.length_append, List.length_singleton]
    omega
  | _ => exact ⟨rfl, rfl⟩

theorem counted_step {op : HubOp} (counted : hub.enqueued.length = (hub.calls.map Stage.counted).sum)
    (stepped : hubStep config hub op = some after) :
    after.enqueued.length = (after.calls.map Stage.counted).sum := by
  cases op with
  | call call =>
    cases stepped
    simpa [Stage.counted] using counted
  | advance index choice =>
    obtain ⟨stage, found, went⟩ := Option.bind_eq_some_iff.mp stepped
    obtain ⟨moved, later, moves, rfl⟩ := advance_moves went
    obtain ⟨calls, counts⟩ := moves.counted
    obtain ⟨inside, here⟩ := List.getElem?_eq_some_iff.mp found
    have before := congrArg List.sum (congrArg (List.map Stage.counted) (List.take_append_drop index hub.calls))
    change moved.enqueued.length = ((moved.calls.set index later).map Stage.counted).sum
    rw [calls, List.set_eq_take_append_cons_drop, if_pos inside]
    rw [List.drop_eq_getElem_cons inside, here] at before
    simp only [List.map_append, List.map_cons, List.sum_append, List.sum_cons] at before ⊢
    omega
  | work index quits =>
    obtain ⟨worker, found, went⟩ := Option.bind_eq_some_iff.mp stepped
    obtain ⟨moved, next, works, rfl⟩ := work_works went
    cases works <;> exact counted

/-- The jobs that were enqueued are as many as the broadcasts, returned or running, have counted. -/
theorem enqueued_counted {ops : List HubOp} (reached : (hubMachine config).Reaches (newHub config) ops hub) :
    hub.enqueued.length = (hub.calls.map Stage.counted).sum := by
  have keeps : ∀ before op next out, before.enqueued.length = (before.calls.map Stage.counted).sum → True →
      (hubMachine config).step before op = some (next, out) →
        next.enqueued.length = (next.calls.map Stage.counted).sum := by
    intro before op next out counted _ stepEq
    obtain ⟨found, stepped, same⟩ := Option.map_eq_some_iff.mp stepEq
    cases same
    exact counted_step counted stepped
  exact Machine.reaches_invariant keeps rfl (Machine.meets_of_forall (fun _ _ _ => trivial) _) reached

/-- When the rooms are cleared for the last time, no `TryJoin` is between its look at the flag and its
locked section. -/
def JoinsSettled (hub : Hub) : HubOp → Prop
  | .advance index _ => hub.calls[index]? = some .clearing → ∀ stage ∈ hub.calls, stage.joins = false
  | _ => True

instance decidableJoinsSettled (hub : Hub) (op : HubOp) : Decidable (JoinsSettled hub op) := by
  cases op <;> dsimp only [JoinsSettled] <;> infer_instance

/-- The rooms, once the `Stop` that stops the hub has returned. -/
structure Cleared (hub : Hub) : Prop where
  drains : Drains hub
  final : .returned (.stopped true) ∈ hub.calls →
    hub.rooms.rooms = ∅ ∧ ∀ stage ∈ hub.calls, stage.joins = false

theorem shrinks_empty {rooms next : Rooms} (shrinks : Shrinks rooms next) (empty : rooms.rooms = ∅) :
    next.rooms = ∅ := by
  cases shrinks with
  | same => exact empty
  | clear => rfl
  | leave room conn =>
    unfold leaveLocked
    rw [empty]
    exact empty
  | remove conn =>
    unfold removeConnLocked
    rw [empty]
    rfl

/-- A call that goes on, on a hub whose final state stays as it is. -/
theorem final_goTo (hub : Hub) (rooms : Rooms) (drains : Drains hub)
    (final : .returned (.stopped true) ∈ hub.calls →
      hub.rooms.rooms = ∅ ∧ ∀ stage ∈ hub.calls, stage.joins = false)
    (calm : later ≠ .returned (.stopped true)) (empty : hub.rooms.rooms = ∅ → rooms.rooms = ∅)
    (joining : later.joins = true → stage.joins = true ∨ hub.stopped = false)
    (member : stage ∈ hub.calls) :
    .returned (.stopped true) ∈ hub.calls.set index later →
      rooms.rooms = ∅ ∧ ∀ other ∈ hub.calls.set index later, other.joins = false := by
  intro returned
  have before : .returned (.stopped true) ∈ hub.calls :=
    (List.mem_or_eq_of_mem_set returned).resolve_right fun same => calm same.symm
  obtain ⟨wasEmpty, settled⟩ := final before
  refine ⟨empty wasEmpty, fun other inside => ?_⟩
  rcases List.mem_or_eq_of_mem_set inside with old | rfl
  · exact settled other old
  · rw [Bool.eq_false_iff]
    intro joins
    rcases joining joins with already | running
    · rw [settled stage member] at already
      cases already
    · rw [drains.stopping _ before rfl] at running
      cases running

theorem Cleared.moves (cleared : Cleared hub) (member : stage ∈ hub.calls)
    (moves : Moves config hub stage moved later)
    (settled : stage = .clearing → ∀ other ∈ hub.calls, other.joins = false) :
    Cleared (moved.goTo index later) := by
  obtain ⟨drains, final⟩ := cleared
  refine ⟨drains.moves member moves, ?_⟩
  cases moves with
  | plain shrinks before calm reading joining =>
    refine final_goTo hub _ drains final (fun same => ?_) (shrinks_empty shrinks) joining member
    rw [same] at calm
    cases calm
  | join joins joined =>
    -- after the end there is no call that joins
    intro returned
    have before : .returned (.stopped true) ∈ hub.calls :=
      (List.mem_or_eq_of_mem_set returned).resolve_right fun same => by cases same
    rw [(final before).2 stage member] at joins
    cases joins
  | enqueue job reads readsOn =>
    have sending : later ≠ .returned (.stopped true) ∧ later.joins = false := by
      cases later with
      | sending => exact ⟨Stage.noConfusion, rfl⟩
      | _ => cases readsOn
    refine final_goTo hub hub.rooms drains final sending.1 id (fun joins => ?_) member
    rw [sending.2] at joins
    cases joins
  | stop running | close unread | wait exited =>
    exact final_goTo hub hub.rooms drains final Stage.noConfusion id
      Bool.noConfusion member
  | clear =>
    refine fun _ => ⟨rfl, fun other inside => ?_⟩
    rcases List.mem_or_eq_of_mem_set inside with old | rfl
    · exact settled rfl other old
    · rfl

theorem Cleared.step {op : HubOp} (cleared : Cleared hub) (settled : JoinsSettled hub op)
    (stepped : hubStep config hub op = some after) : Cleared after := by
  have drained := cleared.drains.step stepped
  cases op with
  | call call =>
    cases stepped
    refine ⟨drained, fun returned => ?_⟩
    rw [List.mem_append, List.mem_singleton] at returned
    have before := returned.resolve_right Stage.noConfusion
    refine ⟨(cleared.final before).1, fun stage member => ?_⟩
    rw [List.mem_append, List.mem_singleton] at member
    rcases member with old | rfl
    · exact (cleared.final before).2 stage old
    · rfl
  | advance index choice =>
    obtain ⟨stage, found, went⟩ := Option.bind_eq_some_iff.mp stepped
    obtain ⟨moved, later, moves, rfl⟩ := advance_moves went
    refine cleared.moves (List.mem_of_getElem? found) moves fun clearing => ?_
    exact settled (clearing ▸ found)
  | work index quits =>
    obtain ⟨worker, found, went⟩ := Option.bind_eq_some_iff.mp stepped
    obtain ⟨moved, next, works, rfl⟩ := work_works went
    refine ⟨drained, ?_⟩
    cases works <;> exact cleared.final

/-- For every interleaving of calls and workers, once the `Stop` that stops the hub has returned: the
jobs that were counted as enqueued have all been passed to `writeJob`, each one once; and if no
`TryJoin` was past its look at the flag when the rooms were cleared, no connection is in any room. -/
theorem stop_final (config : HubConfig) (ops : List HubOp) (hub : Hub)
    (reached : (hubMachine config).Reaches (newHub config) ops hub)
    (returned : .returned (.stopped true) ∈ hub.calls) :
    hub.written.Perm hub.enqueued ∧
      ((hubMachine config).Meets JoinsSettled (newHub config) ops → hub.rooms.rooms = ∅) := by
  constructor
  · have drains : Drains hub := by
      have keeps : ∀ before op next out, Drains before → True →
          (hubMachine config).step before op = some (next, out) → Drains next := by
        intro before op next out drains _ stepEq
        obtain ⟨found, stepped, same⟩ := Option.map_eq_some_iff.mp stepEq
        cases same
        exact drains.step stepped
      exact Machine.reaches_invariant keeps (drains_newHub config)
        (Machine.meets_of_forall (fun _ _ _ => trivial) _) reached
    have exited := drains.waited _ returned rfl
    obtain ⟨worker, member⟩ := List.exists_mem_of_ne_nil _ drains.someWorker
    have noJobs := drains.empty (exited worker member ▸ member)
    have noneHeld : hub.workers.flatMap Worker.held = [] :=
      List.flatMap_eq_nil_iff.mpr fun other inside => by rw [exited other inside]; rfl
    have jobs := drains.jobs
    rw [noJobs, noneHeld, List.append_nil, List.append_nil] at jobs
    exact jobs.symm
  · intro settled
    have cleared : Cleared hub := by
      refine Machine.reaches_invariant ?_ ⟨drains_newHub config, ?_⟩ settled reached
      · intro before op next out cleared met stepEq
        obtain ⟨found, stepped, same⟩ := Option.map_eq_some_iff.mp stepEq
        cases same
        exact cleared.step met stepped
      · exact fun member => absurd member List.not_mem_nil
    exact (cleared.final returned).1

/-- A `Stop` as a call of its own, with the only worker between its steps. -/
def stopsInFull (index : Nat) : List HubOp :=
  inFull index 2 .stop ++ [.work 0 true, .work 0 true] ++
    List.replicate 2 (.advance index (smoothly []))

/-- A connection joins, gets a broadcast and the hub stops. -/
def broadcastThenStop : List HubOp :=
  inFull 0 4 (.tryJoin (ascii "a") (some 1)) ++
    inFull 1 5 (.tryBroadcastRoom (ascii "a") 1 (ascii "hi")) ++ [.work 0 false, .work 0 false] ++
    stopsInFull 2

theorem stop_final_broadcast :
    ∃ hub, (hubMachine smallHub).run (newHub smallHub) broadcastThenStop = some hub ∧
      hub.enqueued = [⟨1, 1, ascii "hi"⟩] ∧ hub.written.Perm hub.enqueued ∧ hub.rooms.rooms = ∅ := by
  have ran : ((hubMachine smallHub).run (newHub smallHub) broadcastThenStop).map
      (fun hub => (decide (.returned (.stopped true) ∈ hub.calls), hub.enqueued)) =
      some (true, [⟨1, 1, ascii "hi"⟩]) := by
    decide +kernel
  obtain ⟨hub, ranEq, same⟩ := Option.map_eq_some_iff.mp ran
  obtain ⟨returned, enqueued⟩ := Prod.mk.inj same
  obtain ⟨written, empty⟩ := stop_final smallHub broadcastThenStop hub ⟨_, List.prefix_rfl, ranEq⟩
    (of_decide_eq_true returned)
  exact ⟨hub, ranEq, enqueued, written, empty (by decide +kernel)⟩

/-- A `TryJoin` that has found the hub running registers its connection after the `Stop` has returned.
And a second `Stop` returns at once, with the job of the broadcast still in the queue. -/
theorem joined_after_stop :
    ((hubMachine smallHub).run (newHub smallHub)
        (inFull 0 1 (.tryJoin (ascii "a") (some 1)) ++ stopsInFull 1 ++
          List.replicate 3 (.advance 0 (smoothly [])))).map
      (fun hub => (hub.calls, hub.rooms.has (ascii "a") 1)) =
      some ([.returned (.joined none), .returned (.stopped true)], true) ∧
    ((hubMachine smallHub).run (newHub smallHub)
        (inFull 0 4 (.tryJoin (ascii "a") (some 1)) ++
          inFull 1 5 (.tryBroadcastRoom (ascii "a") 1 (ascii "hi")) ++ inFull 2 1 .stop ++
          inFull 3 1 .stop)).map
      (fun hub => (hub.calls[3]?, hub.enqueued, hub.written)) =
      some (some (.returned (.stopped false)), [⟨1, 1, ascii "hi"⟩], []) := by
  decide +kernel

end Plumego.Websocket
