/-
Module: Plumego.Proofs.TaskStranding
Purpose: Which queued and leased tasks no later call can move on: exactly the
  leased ones whose lease has run out and the queued ones that expire before
  they are due. Runs that stay clear of both strand no task.
Trusted boundary: none
Main exports: clockedMachine, Stranded, InTime, no_task_stranded, lapsed_lease_strands
-/
import Plumego.Proofs.TaskLifecycle

namespace Plumego.Mq

open Plumego.Go
open Plumego.Lib

/-! ## Time -/

/-- The time at which a call acts; an insertion has none. -/
def Call.clock : Call → Option Time
  | .insert _ => none
  | .reserve opts reading _ => some (opts.withDefaults reading).now
  | .ack _ _ now => some now
  | .release _ _ opts => some opts.now
  | .moveToDLQ _ _ _ now => some now
  | .extendLease _ _ _ now => some now
  | .replayDLQ opts reading _ => some (opts.withDefaults reading).now

/-- The store with the latest time at which a call has acted. -/
structure Clocked where
  store : MemStore
  clock : Time

/-- The latest time after one more call. -/
def Clocked.advance (state : Clocked) (call : Call) : Time :=
  match call.clock with
  | none => state.clock
  | some now => max state.clock now

/-- The store and its time, one call at a time. -/
def clockedMachine : Machine Clocked Call Result where
  step state call :=
    some (⟨(state.store.call call).1, state.advance call⟩, (state.store.call call).2)

/-- The instant is before the task's `ExpiresAt`. -/
def Task.Unexpired (task : Task) (now : Time) : Prop :=
  task.expiresAt = zeroTime ∨ now < task.expiresAt

instance (task : Task) (now : Time) : Decidable (task.Unexpired now) :=
  inferInstanceAs (Decidable (_ ∨ _))

/-- A lease is without limit or has not run out. -/
def LeaseRuns (leaseUntil now : Time) : Prop := leaseUntil = zeroTime ∨ now ≤ leaseUntil

instance (leaseUntil now : Time) : Decidable (LeaseRuns leaseUntil now) :=
  inferInstanceAs (Decidable (_ ∨ _))

/-! ## Stranded tasks -/

/-- An acknowledgement, a release or a dead-lettering of the task. -/
def Call.Settles (id : Bytes) : Call → Prop
  | .ack taskID _ _ => taskID = id
  | .release taskID _ _ => taskID = id
  | .moveToDLQ taskID _ _ _ => taskID = id
  | .insert _ => False
  | .reserve _ _ _ => False
  | .extendLease _ _ _ _ => False
  | .replayDLQ _ _ _ => False

/-- The step returns the task from `Reserve`, acknowledges it, releases it or
dead-letters it. -/
def Progresses (id : Bytes) (step : StoreStep) : Prop :=
  step.out.Returns id ∨ step.op.Settles id ∧ step.out = .error none

/-- A call no earlier than the clock and before the task's `ExpiresAt`. -/
def Call.Later (clock : Time) (task : Task) (call : Call) : Prop :=
  ∀ now, call.clock = some now → clock ≤ now ∧ task.Unexpired now

/-- A queued or leased task, not yet expired, that no sequence of later calls can
move on. -/
def Stranded (state : Clocked) (id : Bytes) : Prop :=
  ∃ record, state.store.tasks.lookup id = some record ∧
    (record.status = .queued ∨ record.status = .leased) ∧ record.task.Unexpired state.clock ∧
    ∀ calls : List Call, (∀ call ∈ calls, call.Later state.clock record.task) →
      ∀ step ∈ machine.history state.store calls, ¬ Progresses id step

/-! ## Records that nothing touches -/

theorem Call.Settles.leaseCall {call : Call} {id : Bytes} (settles : call.Settles id) :
    ∃ lease, call.leaseCall = some lease ∧ lease.taskID = id := by
  cases call with
  | ack | release | moveToDLQ => exact ⟨_, rfl, settles⟩
  | insert | reserve | extendLease | replayDLQ => exact settles.elim

theorem clock_leaseCall {call : Call} {lease : LeaseCall}
    (onLease : call.leaseCall = some lease) : call.clock = some lease.now := by
  cases call <;> cases onLease <;> rfl

/-- No later call reserves, expires, settles or replays the record. -/
structure Frozen (clock : Time) (record : MemRecord) : Prop where
  notReserved : ∀ opts : ReserveOptions, clock ≤ opts.now → record.task.Unexpired opts.now →
    opts.isCandidate record = false ∧ opts.lapsed record = false
  notHeld : ∀ consumerID now, clock ≤ now → record.leaseHeld consumerID now = false
  notDead : record.status ≠ .dead

section Frozen

variable {store : MemStore} {id : Bytes} {record : MemRecord} {clock : Time}

/-- A lease that has run out freezes its record. -/
theorem frozen_leased (leased : record.status = .leased)
    (ranOut : ¬ LeaseRuns record.task.leaseUntil clock) : Frozen clock record where
  notReserved opts _ _ := by simp [ReserveOptions.isCandidate, ReserveOptions.lapsed, leased]
  notHeld consumerID now later := by
    rw [← Bool.not_eq_true]
    intro held
    rcases (leased_of_leaseHeld held).2.2 with unlimited | inTime
    · exact ranOut (Or.inl unlimited)
    · exact ranOut (Or.inr (later.trans inTime))
  notDead := by simp [leased]

/-- A queued task that expires before it is due is frozen until it expires. -/
theorem frozen_queued (queued : record.status = .queued)
    (neverDue : ¬ record.task.Unexpired record.task.availableAt) : Frozen clock record where
  notReserved opts _ unexpired := by
    rw [Task.Unexpired, not_or, not_lt] at neverDue
    have before : opts.now < record.task.expiresAt := unexpired.resolve_left neverDue.1
    have notYet : opts.now < record.task.availableAt := before.trans_le neverDue.2
    simp [ReserveOptions.isCandidate, ReserveOptions.lapsed, before, notYet]
  notHeld consumerID now _ := by simp [MemRecord.leaseHeld, queued]
  notDead := by simp [queued]

theorem Frozen.step (frozen : Frozen clock record) {step : StoreStep} (moving : Moving step)
    (found : step.before.tasks.lookup id = some record)
    (later : step.op.Later clock record.task) :
    step.after.tasks.lookup id = some record ∧ ¬ Progresses id step := by
  have moved := moving id
  rw [found] at moved
  obtain ⟨store, call, result, next⟩ := step
  generalize next.tasks.lookup id = after at moved ⊢
  cases moved with
  | untouched notReturned notInserted notSettled =>
    refine ⟨rfl, ?_⟩
    rintro (returned | ⟨settles, succeeded⟩)
    · exact notReturned returned
    · obtain ⟨lease, onLease, same⟩ := settles.leaseCall
      exact notSettled lease onLease same succeeded
  | reserved candidate returned =>
    obtain ⟨late, unexpired⟩ := later _ rfl
    rw [(frozen.notReserved _ late unexpired).1] at candidate
    cases candidate
  | expired lapsed notReturned =>
    obtain ⟨late, unexpired⟩ := later _ rfl
    rw [(frozen.notReserved _ late unexpired).2] at lapsed
    cases lapsed
  | settled onLease same held =>
    obtain ⟨late, -⟩ := later _ (clock_leaseCall onLease)
    rw [frozen.notHeld _ _ late] at held
    cases held
  | replayed dead => exact absurd dead frozen.notDead

/-- No sequence of later calls moves a frozen record on. -/
theorem Frozen.history (frozen : Frozen clock record) (keyed : store.Keyed)
    (found : store.tasks.lookup id = some record) {calls : List Call}
    (later : ∀ call ∈ calls, call.Later clock record.task) :
    ∀ step ∈ machine.history store calls, ¬ Progresses id step := by
  induction calls generalizing store with
  | nil => simp [Machine.history]
  | cons call calls ih =>
    have stepEq : machine.step store call = some ((store.call call).1, (store.call call).2) := rfl
    obtain ⟨stays, noProgress⟩ := frozen.step (moving_of_step keyed stepEq) found
      (later call List.mem_cons_self)
    rw [Machine.history_cons calls stepEq]
    intro step member
    rcases List.mem_cons.mp member with rfl | rest
    · exact noProgress
    · exact ih (keyed.call call) stays
        (List.forall_mem_of_forall_mem_cons later) step rest

end Frozen

/-! ## Tasks that can move on -/

section Progress

variable {store : MemStore} {id : Bytes} {record : MemRecord} {now : Time}

/-- The owner of a running lease can acknowledge. -/
theorem progress_leased (found : store.tasks.lookup id = some record)
    (leased : record.status = .leased) (runs : LeaseRuns record.task.leaseUntil now) :
    ∃ step ∈ machine.history store [.ack id record.task.leaseOwner now], Progresses id step := by
  have held : record.leaseHeld record.task.leaseOwner now = true := by
    rcases runs with unlimited | inTime
    · simp [MemRecord.leaseHeld, leased, isZero, unlimited]
    · simp [MemRecord.leaseHeld, leased, not_lt.mpr inTime]
  refine ⟨_, List.mem_singleton.mpr rfl, Or.inr ⟨rfl, ?_⟩⟩
  change Result.error (store.ack id record.task.leaseOwner now).2 = _
  simp [MemStore.ack, MemStore.onLease, found, held]

/-- A `Reserve` call without a limit that matters returns every candidate. -/
theorem returns_of_candidate (keyed : store.Keyed) {opts : ReserveOptions} {reading : Time}
    (sorting : SliceSort reserveLess) (found : store.tasks.lookup id = some record)
    (candidate : (opts.withDefaults reading).isCandidate record = true)
    (enough : opts.limit = (pairs store.tasks).length) :
    (Result.tasks (store.reserve opts reading sorting).2).Returns id := by
  have stored : (id, record) ∈ pairs store.tasks := mem_pairs.mpr found
  have positive : ¬ opts.limit ≤ 0 := by
    have nonempty := List.length_pos_of_mem stored
    omega
  have member : (id, record) ∈ store.selected (opts.withDefaults reading) sorting := by
    rw [MemStore.selected, List.take_of_length_le]
    · exact (sorting.perm _).mem_iff.mpr (List.mem_filter.mpr ⟨stored, candidate⟩)
    · have shorter := List.length_filter_le
        (fun entry => (opts.withDefaults reading).isCandidate entry.2) (pairs store.tasks)
      have limit : (opts.withDefaults reading).limit = (pairs store.tasks).length := enough
      rw [(sorting.perm _).length_eq, limit, Int.toNat_natCast]
      exact shorter
  rw [MemStore.reserve, if_neg positive]
  exact (MemStore.returns_selected keyed).mpr (List.mem_map.mpr ⟨(id, record), member, rfl⟩)

/-- A `Reserve` call for every topic and any number of tasks. -/
def reserveAll (store : MemStore) (now : Time) : Call :=
  .reserve { limit := (pairs store.tasks).length, consumerID := [], now := now } now reserveSort

/-- A queued task that is due and not expired can be reserved. -/
theorem progress_queued (keyed : store.Keyed) (found : store.tasks.lookup id = some record)
    (queued : record.status = .queued) (due : record.task.availableAt ≤ now)
    (unexpired : record.task.Unexpired now) :
    ∃ step ∈ machine.history store [reserveAll store now], Progresses id step := by
  refine ⟨_, List.mem_singleton.mpr rfl, Or.inl ?_⟩
  refine returns_of_candidate keyed reserveSort found ?_ rfl
  rcases unexpired with never | before
  · simp [ReserveOptions.isCandidate, ReserveOptions.lapsed, ReserveOptions.withDefaults, queued,
      isZero, never, not_lt.mpr due]
  · simp [ReserveOptions.isCandidate, ReserveOptions.lapsed, ReserveOptions.withDefaults, queued,
      before, not_lt.mpr due]

end Progress

/-! ## Which tasks are stranded -/

section Stranding

variable {state : Clocked} {id : Bytes} {record : MemRecord}

/-- A leased task is stranded exactly if its lease has run out. -/
theorem stranded_leased_iff (keyed : state.store.Keyed)
    (found : state.store.tasks.lookup id = some record) (leased : record.status = .leased)
    (unexpired : record.task.Unexpired state.clock) :
    Stranded state id ↔ ¬ LeaseRuns record.task.leaseUntil state.clock := by
  constructor
  · rintro ⟨other, otherFound, -, -, stuck⟩ runs
    obtain rfl : record = other := Option.some.inj (found.symm.trans otherFound)
    obtain ⟨step, member, progress⟩ := progress_leased found leased runs
    refine stuck _ ?_ step member progress
    intro call isAck now atClock
    rw [List.mem_singleton.mp isAck] at atClock
    cases atClock
    exact ⟨le_refl _, unexpired⟩
  · intro ranOut
    exact ⟨record, found, Or.inr leased, unexpired,
      fun calls later => (frozen_leased leased ranOut).history keyed found later⟩

theorem clock_reserveAll (store : MemStore) (now : Time) :
    (reserveAll store now).clock = some now := by
  simp [reserveAll, Call.clock, ReserveOptions.withDefaults]

/-- A queued task is stranded exactly if it expires before it is due. -/
theorem stranded_queued_iff (keyed : state.store.Keyed)
    (found : state.store.tasks.lookup id = some record) (queued : record.status = .queued)
    (unexpired : record.task.Unexpired state.clock) :
    Stranded state id ↔ ¬ record.task.Unexpired record.task.availableAt := by
  constructor
  · rintro ⟨other, otherFound, -, -, stuck⟩ dueInTime
    obtain rfl : record = other := Option.some.inj (found.symm.trans otherFound)
    have unexpiredThen : record.task.Unexpired (max state.clock record.task.availableAt) := by
      rcases max_choice state.clock record.task.availableAt with isClock | isDue
      · rwa [isClock]
      · rwa [isDue]
    obtain ⟨step, member, progress⟩ :=
      progress_queued keyed found queued (le_max_right _ _) unexpiredThen
    refine stuck _ ?_ step member progress
    intro call isReserve now atClock
    rw [List.mem_singleton.mp isReserve, clock_reserveAll] at atClock
    cases atClock
    exact ⟨le_max_left _ _, unexpiredThen⟩
  · intro neverDue
    exact ⟨record, found, Or.inl queued, unexpired,
      fun calls later => (frozen_queued queued neverDue).history keyed found later⟩

end Stranding

/-! ## Runs -/

/-- What a call may do without letting a task strand: the leases it grants are
running, and the tasks it queues are due before they expire. -/
def Clocked.Accepts (state : Clocked) : Call → Prop
  | .insert task => task.Unexpired task.availableAt
  | .reserve opts reading sorting =>
    LeaseRuns ((opts.withDefaults reading).now + (opts.withDefaults reading).lease)
      (state.advance (.reserve opts reading sorting))
  | .extendLease taskID consumerID lease now =>
    LeaseRuns (now + lease) (state.advance (.extendLease taskID consumerID lease now))
  | .release taskID _ opts =>
    ∀ entry ∈ pairs state.store.tasks, entry.1 = taskID → entry.2.task.Unexpired opts.retryAt
  | .replayDLQ opts reading _ =>
    ∀ entry ∈ pairs state.store.tasks, entry.2.status = .dead →
      entry.2.task.Unexpired (opts.withDefaults reading).availableAt
  | .ack _ _ _ => True
  | .moveToDLQ _ _ _ _ => True

/-- A call in time: no running lease has run out when it acts, and it lets none
strand itself. -/
def InTime (state : Clocked) (call : Call) : Prop :=
  (∀ entry ∈ pairs state.store.tasks, entry.2.status = .leased →
    LeaseRuns entry.2.task.leaseUntil (state.advance call)) ∧ state.Accepts call

instance (state : Clocked) (call : Call) : Decidable (state.Accepts call) := by
  cases call <;> dsimp only [Clocked.Accepts] <;> infer_instance

instance (state : Clocked) (call : Call) : Decidable (InTime state call) :=
  inferInstanceAs (Decidable (_ ∧ _))

/-- Every lease is running, and every queued task is due before it expires. -/
structure Movable (state : Clocked) : Prop where
  keyed : state.store.Keyed
  leased : ∀ id record, state.store.tasks.lookup id = some record → record.status = .leased →
    LeaseRuns record.task.leaseUntil state.clock
  queued : ∀ id record, state.store.tasks.lookup id = some record → record.status = .queued →
    record.task.Unexpired record.task.availableAt

theorem Movable.not_stranded {state : Clocked} (movable : Movable state) (id : Bytes) :
    ¬ Stranded state id := by
  intro stranded
  have whichTask := stranded
  obtain ⟨record, found, queued | leased, unexpired, -⟩ := whichTask
  · exact (stranded_queued_iff movable.keyed found queued unexpired).mp stranded
      (movable.queued id record found queued)
  · exact (stranded_leased_iff movable.keyed found leased unexpired).mp stranded
      (movable.leased id record found leased)

section Keeping

variable {state : Clocked} {call : Call} {id : Bytes} {record : MemRecord}

/-- The lease of a task after a call in time is running. -/
theorem leaseRuns_of_inTime (movable : Movable state) (inTime : InTime state call)
    (found : (state.store.call call).1.tasks.lookup id = some record)
    (leased : record.status = .leased) :
    LeaseRuns record.task.leaseUntil (state.advance call) := by
  have moved := MemStore.moves movable.keyed id call
  rw [found] at moved
  generalize (state.store.call call).2 = result at moved
  generalize earlier : state.store.tasks.lookup id = before at moved
  cases moved with
  | untouched => exact inTime.1 (id, record) (mem_pairs.mpr earlier) leased
  | inserted => cases leased
  | reserved => exact inTime.2
  | expired => cases leased
  | settled onLease =>
    cases call with
    | extendLease => cases onLease; exact inTime.2
    | ack | release | moveToDLQ => cases onLease; cases leased
    | insert | reserve | replayDLQ => cases onLease
  | replayed => cases leased

/-- A task that is queued after a call in time is due before it expires. -/
theorem unexpired_of_inTime (movable : Movable state) (inTime : InTime state call)
    (found : (state.store.call call).1.tasks.lookup id = some record)
    (queued : record.status = .queued) : record.task.Unexpired record.task.availableAt := by
  have moved := MemStore.moves movable.keyed id call
  rw [found] at moved
  generalize (state.store.call call).2 = result at moved
  generalize earlier : state.store.tasks.lookup id = before at moved
  cases moved with
  | untouched => exact movable.queued id record earlier queued
  | inserted => exact inTime.2
  | reserved => cases queued
  | expired => cases queued
  | @settled _ _ record onLease same held =>
    cases call with
    | release =>
      cases onLease
      exact inTime.2 (id, record) (mem_pairs.mpr earlier) same.symm
    | extendLease =>
      cases onLease
      have isLeased : record.status = .leased := (leased_of_leaseHeld held).1
      cases isLeased.symm.trans queued
    | ack | moveToDLQ => cases onLease; cases queued
    | insert | reserve | replayDLQ => cases onLease
  | @replayed _ _ _ _ _ record dead =>
    exact inTime.2 (id, record) (mem_pairs.mpr earlier) dead

theorem Movable.step {next : Clocked} {result : Result} (movable : Movable state)
    (inTime : InTime state call)
    (stepEq : clockedMachine.step state call = some (next, result)) : Movable next := by
  obtain ⟨rfl, -⟩ := Prod.mk.inj (Option.some.inj stepEq)
  exact ⟨movable.keyed.call call, fun id record => leaseRuns_of_inTime movable inTime,
    fun id record => unexpired_of_inTime movable inTime⟩

end Keeping

theorem movable_empty (start : Time) : Movable ⟨{}, start⟩ where
  keyed := MemStore.keyed_empty
  leased id record found := by cases (AList.lookup_empty id).symm.trans found
  queued id record found := by cases (AList.lookup_empty id).symm.trans found

theorem keyed_of_run {start : Time} {calls : List Call} {state : Clocked}
    (ran : clockedMachine.run ⟨{}, start⟩ calls = some state) : state.store.Keyed := by
  have kept : ∀ (state : Clocked) (call : Call) (next : Clocked) (result : Result) (_ : True),
      state.store.Keyed → clockedMachine.step state call = some (next, result) →
        next.store.Keyed := by
    intro state call next result _ keyed stepEq
    obtain ⟨rfl, -⟩ := Prod.mk.inj (Option.some.inj stepEq)
    exact keyed.call call
  exact Machine.run_invariant kept MemStore.keyed_empty (fun _ _ => trivial) ran

/-- In a run whose calls all come in time, no task is stranded in any state. -/
theorem no_task_stranded {start : Time} {calls : List Call}
    (inTime : clockedMachine.Meets InTime ⟨{}, start⟩ calls) {state : Clocked}
    (reached : clockedMachine.Reaches ⟨{}, start⟩ calls state) (id : Bytes) :
    ¬ Stranded state id := by
  have movable : Movable state :=
    Machine.reaches_invariant (fun _ _ _ _ movable inTime stepEq => movable.step inTime stepEq)
      (movable_empty start) inTime reached
  exact movable.not_stranded id

/-- A task that is reserved, extended, released, reserved again and
acknowledged. -/
def timelyCalls : List Call :=
  [.insert { id := ascii "t", expiresAt := 10 ^ 12, availableAt := 1 },
    .reserve { limit := 1, lease := 10, consumerID := ascii "a", now := 5 } 0 reserveSort,
    .extendLease (ascii "t") (ascii "a") 20 8,
    .release (ascii "t") (ascii "a") { retryAt := 40, now := 28 },
    .reserve { limit := 1, consumerID := ascii "b", now := 50 } 0 reserveSort,
    .ack (ascii "t") (ascii "b") 60]

theorem no_task_stranded_timely :
    clockedMachine.Meets InTime ⟨{}, 0⟩ timelyCalls ∧
      ∀ state, clockedMachine.Reaches ⟨{}, 0⟩ timelyCalls state → ¬ Stranded state (ascii "t") := by
  have inTime : clockedMachine.Meets InTime ⟨{}, 0⟩ timelyCalls := by decide +kernel
  exact ⟨inTime, fun state reached => no_task_stranded inTime reached (ascii "t")⟩

/-- A consumer that reserves a task for a second and loses the lease. -/
def lostLeaseCalls : List Call :=
  [.insert { id := ascii "t" },
    .reserve { limit := 1, lease := 10 ^ 9, consumerID := ascii "c", now := 10 ^ 9 } 0 reserveSort,
    .extendLease (ascii "t") (ascii "c") (10 ^ 9) (3 * 10 ^ 9)]

/-- The state after the lease has run out strands the task. -/
theorem lapsed_lease_strands :
    ∃ state, clockedMachine.Reaches ⟨{}, 0⟩ lostLeaseCalls state ∧ Stranded state (ascii "t") := by
  have facts : ((clockedMachine.run ⟨{}, 0⟩ lostLeaseCalls).bind fun state =>
      (state.store.tasks.lookup (ascii "t")).map fun record =>
        (record.status, record.task.expiresAt, record.task.leaseUntil, state.clock)) =
      some (.leased, zeroTime, 2 * 10 ^ 9, 3 * 10 ^ 9) := by
    decide +kernel
  obtain ⟨state, ran, rest⟩ := Option.bind_eq_some_iff.mp facts
  obtain ⟨record, found, values⟩ := Option.map_eq_some_iff.mp rest
  simp only [Prod.mk.injEq] at values
  obtain ⟨leased, never, leaseUntil, clock⟩ := values
  have keyed : state.store.Keyed := keyed_of_run ran
  refine ⟨state, ⟨_, List.prefix_refl _, ran⟩, ?_⟩
  refine (stranded_leased_iff keyed found leased (Or.inl never)).mpr ?_
  rw [leaseUntil, clock]
  decide

end Plumego.Mq
