/-
Module: Plumego.Proofs.TaskLifecycle
Purpose: The lifecycle of tasks over every run of the store: the changes of
  status, exclusive reservations, who may settle a task, and the count of
  attempts.
Trusted boundary: none
Main exports: Edge, EntersQueued, HoldsReservation, Tally, Lifecycle, lifecycle,
  ack_after_zero_lease
-/
import Plumego.Proofs.TaskMoves

namespace Plumego.Mq

open Plumego.Go
open Plumego.Lib

/-- One call of a run. -/
abbrev StoreStep := Step MemStore Call Result

/-! ## The lifecycle -/

/-- The changes of status that each call may make. -/
inductive Edge : Call → Option TaskStatus → Option TaskStatus → Prop
  | unchanged {call : Call} {status : Option TaskStatus} : Edge call status status
  | insert {task : Task} : Edge (.insert task) none (some .queued)
  | reserve {opts : ReserveOptions} {reading : Time} {sorting : SliceSort reserveLess} :
      Edge (.reserve opts reading sorting) (some .queued) (some .leased)
  | expire {opts : ReserveOptions} {reading : Time} {sorting : SliceSort reserveLess} :
      Edge (.reserve opts reading sorting) (some .queued) (some .expired)
  | release {taskID consumerID : Bytes} {opts : ReleaseOptions} :
      Edge (.release taskID consumerID opts) (some .leased) (some .queued)
  | ack {taskID consumerID : Bytes} {now : Time} :
      Edge (.ack taskID consumerID now) (some .leased) (some .done)
  | moveToDLQ {taskID consumerID reason : Bytes} {now : Time} :
      Edge (.moveToDLQ taskID consumerID reason now) (some .leased) (some .dead)
  | replayDLQ {opts : ReplayOptions} {reading : Time} {sorting : SliceSort replayLess} :
      Edge (.replayDLQ opts reading sorting) (some .dead) (some .queued)

/-- The task becomes queued. -/
def EntersQueued (id : Bytes) (step : StoreStep) : Prop :=
  step.before.statusOf id ≠ some .queued ∧ step.after.statusOf id = some .queued

/-- The last `Reserve` call that returned the task was this consumer's, and the
task has been leased ever since. -/
def HoldsReservation (past : List StoreStep) (id consumerID : Bytes) : Prop :=
  ∃ front reservation since opts reading sorting,
    past = front ++ reservation :: since ∧
      reservation.op = .reserve opts reading sorting ∧ opts.consumerID = consumerID ∧
      reservation.out.Returns id ∧ ∀ step ∈ since, step.after.statusOf id = some .leased

/-- The attempts a task started with, at its insertion or its last reset, and
the `Reserve` calls that have returned it since. -/
structure Tally where
  base : Int64
  reservations : Nat

/-- The tally of a task after one more step. -/
def Tally.advance (id : Bytes) (tally : Tally) (step : StoreStep) : Tally :=
  match step.op with
  | .insert task =>
    if task.id = id ∧ step.out = .error none then ⟨task.attempts, 0⟩ else tally
  | .reserve _ _ _ =>
    if step.out.Returns id then ⟨tally.base, tally.reservations + 1⟩ else tally
  | .replayDLQ opts _ _ =>
    if opts.resetAttempts = true ∧ step.before.statusOf id = some .dead ∧
        step.after.statusOf id = some .queued then ⟨0, 0⟩
    else tally
  | .ack _ _ _ => tally
  | .release _ _ _ => tally
  | .moveToDLQ _ _ _ _ => tally
  | .extendLease _ _ _ _ => tally

def tally (id : Bytes) (past : List StoreStep) : Tally :=
  past.foldl (Tally.advance id) ⟨0, 0⟩

/-- The lifecycle of every task over a run. -/
structure Lifecycle (steps : List StoreStep) : Prop where
  edges : ∀ step ∈ steps, ∀ id, Edge step.op (step.before.statusOf id) (step.after.statusOf id)
  distinct : ∀ step ∈ steps, ∀ tasks, step.out = .tasks tasks → (tasks.map Task.id).Nodup
  once : ∀ id front first middle second back,
    steps = front ++ first :: (middle ++ second :: back) →
      first.out.Returns id → second.out.Returns id → ∃ step ∈ middle, EntersQueued id step
  held : ∀ front step back lease, steps = front ++ step :: back →
    step.op.leaseCall = some lease → step.out = .error none →
      HoldsReservation front lease.taskID lease.consumerID ∧
        ∃ record, step.before.tasks.lookup lease.taskID = some record ∧
          (record.task.leaseUntil = zeroTime ∨ lease.now ≤ record.task.leaseUntil)
  closed : ∀ id front first middle second back,
    steps = front ++ first :: (middle ++ second :: back) →
      first.after.statusOf id = some .done ∨ first.after.statusOf id = some .expired →
        ¬ second.out.Returns id
  attempts : ∀ id front step back record, steps = front ++ step :: back →
    step.after.tasks.lookup id = some record →
      record.task.attempts - (tally id (front ++ [step])).base =
        Int64.ofNat (tally id (front ++ [step])).reservations

/-! ## One step -/

/-- The moves of one step of a run. -/
def Moving (step : StoreStep) : Prop :=
  ∀ id, Moves id step.op step.out (step.before.tasks.lookup id) (step.after.tasks.lookup id)

theorem machine_step {store next : MemStore} {call : Call} {result : Result} :
    machine.step store call = some (next, result) ↔
      (store.call call).1 = next ∧ (store.call call).2 = result := by
  rw [machine, Option.some.injEq, Prod.ext_iff]

theorem moving_of_step {store next : MemStore} {call : Call} {result : Result}
    (keyed : store.Keyed) (stepEq : machine.step store call = some (next, result)) :
    Moving ⟨store, call, result, next⟩ := by
  obtain ⟨rfl, rfl⟩ := machine_step.mp stepEq
  exact fun id => MemStore.moves keyed id call

theorem keyed_step {store next : MemStore} {call : Call} {result : Result}
    (keyed : store.Keyed) (stepEq : machine.step store call = some (next, result)) :
    next.Keyed := by
  obtain ⟨rfl, rfl⟩ := machine_step.mp stepEq
  exact keyed.call call

/-- Every step of a run starts from a store with its records under their IDs. -/
theorem keyed_of_mem {start : MemStore} (keyed : start.Keyed) {calls : List Call}
    {step : StoreStep} (member : step ∈ machine.history start calls) :
    step.before.Keyed ∧ machine.step step.before step.op = some (step.after, step.out) := by
  obtain ⟨front, back, split⟩ := List.append_of_mem member
  have kept : ∀ (_ : List StoreStep) (state : MemStore) (op : Call) (next : MemStore)
      (out : Result), state.Keyed → machine.step state op = some (next, out) → next.Keyed :=
    fun _ _ _ _ _ keyed stepEq => keyed_step keyed stepEq
  exact Machine.history_invariant kept keyed split

theorem moving_of_mem {start : MemStore} (keyed : start.Keyed) {calls : List Call}
    {step : StoreStep} (member : step ∈ machine.history start calls) : Moving step := by
  obtain ⟨keyedBefore, stepEq⟩ := keyed_of_mem keyed member
  exact moving_of_step keyedBefore stepEq

section Moving

variable {step : StoreStep} {id : Bytes}

/-- The change that a call on a lease makes to the status. -/
theorem edge_of_leaseCall {call : Call} {lease : LeaseCall} {record : MemRecord}
    (onLease : call.leaseCall = some lease) (leased : record.status = .leased) :
    Edge call (some record.status) (some (lease.change record).status) := by
  rw [leased]
  cases call with
  | ack => cases onLease; exact .ack
  | release => cases onLease; exact .release
  | moveToDLQ => cases onLease; exact .moveToDLQ
  | extendLease =>
    cases onLease
    change Edge _ _ (some record.status)
    rw [leased]
    exact .unchanged
  | insert | reserve | replayDLQ => cases onLease

theorem leased_of_leaseHeld {record : MemRecord} {consumerID : Bytes} {now : Time}
    (held : record.leaseHeld consumerID now = true) :
    record.status = .leased ∧ record.task.leaseOwner = consumerID ∧
      (record.task.leaseUntil = zeroTime ∨ now ≤ record.task.leaseUntil) := by
  simp only [MemRecord.leaseHeld, Bool.and_eq_true, beq_iff_eq, Bool.not_eq_true',
    Bool.and_eq_false_iff, Bool.not_eq_false', isZero, decide_eq_false_iff_not, not_lt] at held
  exact ⟨held.1.1, held.1.2, held.2⟩

theorem Moving.edge (moving : Moving step) (id : Bytes) :
    Edge step.op (step.before.statusOf id) (step.after.statusOf id) := by
  unfold MemStore.statusOf
  have moved := moving id
  generalize step.before.tasks.lookup id = before at moved
  generalize step.after.tasks.lookup id = after at moved
  generalize step.op = call, step.out = result at moved
  cases moved with
  | untouched => exact .unchanged
  | inserted => exact .insert
  | reserved candidate =>
    rw [Option.map_some, ReserveOptions.queued_of_isCandidate candidate]
    exact .reserve
  | expired lapsed =>
    rw [Option.map_some, ReserveOptions.queued_of_lapsed lapsed]
    exact .expire
  | settled onLease same held => exact edge_of_leaseCall onLease (leased_of_leaseHeld held).1
  | replayed dead =>
    rw [Option.map_some, dead]
    exact .replayDLQ

/-- Only a queued task is returned, and it is leased then. -/
theorem Moving.returned (moving : Moving step) (returned : step.out.Returns id) :
    step.before.statusOf id = some .queued ∧ step.after.statusOf id = some .leased := by
  unfold MemStore.statusOf
  have moved := moving id
  generalize step.before.tasks.lookup id = before at moved
  generalize step.after.tasks.lookup id = after at moved
  generalize step.op = call at moved
  generalize step.out = result at moved returned
  cases moved with
  | untouched notReturned => exact absurd returned notReturned
  | inserted => exact returned.elim
  | reserved candidate =>
    rw [Option.map_some, ReserveOptions.queued_of_isCandidate candidate]
    exact ⟨rfl, rfl⟩
  | expired lapsed notReturned => exact absurd returned notReturned
  | settled => exact returned.elim
  | replayed => exact returned.elim

/-- A done or expired task stays so. -/
theorem Moving.closed (moving : Moving step)
    (closed : step.before.statusOf id = some .done ∨ step.before.statusOf id = some .expired) :
    step.after.statusOf id = some .done ∨ step.after.statusOf id = some .expired := by
  have edge := moving.edge id
  generalize step.op = call at edge
  generalize step.before.statusOf id = before at edge closed
  generalize step.after.statusOf id = after at edge
  cases edge with
  | unchanged => exact closed
  | insert | reserve => rcases closed with closed | closed <;> cases closed
  | expire => exact Or.inr rfl
  | release => rcases closed with closed | closed <;> cases closed
  | ack => exact Or.inl rfl
  | moveToDLQ | replayDLQ => rcases closed with closed | closed <;> cases closed

theorem distinct_of_step {store next : MemStore} {call : Call} {tasks : List Task}
    (keyed : store.Keyed) (stepEq : machine.step store call = some (next, .tasks tasks)) :
    (tasks.map Task.id).Nodup := by
  have returned : (store.call call).2 = .tasks tasks := (machine_step.mp stepEq).2
  cases call with
  | reserve opts reading sorting =>
    have reserved : (store.reserve opts reading sorting).2 = tasks := Result.tasks.inj returned
    exact reserved ▸ MemStore.distinct_reserved keyed opts reading sorting
  | insert | ack | release | moveToDLQ | extendLease | replayDLQ => cases returned

end Moving

/-! ## Reservations -/

theorem HoldsReservation.snoc {past : List StoreStep} {id consumerID : Bytes}
    (holds : HoldsReservation past id consumerID) {step : StoreStep}
    (leased : step.after.statusOf id = some .leased) :
    HoldsReservation (past ++ [step]) id consumerID := by
  obtain ⟨front, reservation, since, opts, reading, sorting, rfl, isReserve, consumer, returned,
    stays⟩ := holds
  refine ⟨front, reservation, since ++ [step], opts, reading, sorting, by simp, isReserve,
    consumer, returned, ?_⟩
  intro later member
  rcases List.mem_append.mp member with earlier | last
  · exact stays later earlier
  · rw [List.mem_singleton.mp last]
    exact leased

/-- Every leased record names the consumer that holds the reservation. -/
def OwnersHold (past : List StoreStep) (store : MemStore) : Prop :=
  ∀ id record, store.tasks.lookup id = some record → record.status = .leased →
    HoldsReservation past id record.task.leaseOwner

/-- A call on a lease that leaves the task leased keeps its owner. -/
theorem owner_of_leaseCall {call : Call} {lease : LeaseCall} {record : MemRecord}
    (onLease : call.leaseCall = some lease) (leased : (lease.change record).status = .leased) :
    (lease.change record).task.leaseOwner = record.task.leaseOwner := by
  cases call with
  | ack | release | moveToDLQ => cases onLease; cases leased
  | extendLease => cases onLease; rfl
  | insert | reserve | replayDLQ => cases onLease

theorem OwnersHold.step {past : List StoreStep} {step : StoreStep}
    (holds : OwnersHold past step.before) (moving : Moving step) :
    OwnersHold (past ++ [step]) step.after := by
  intro id record found leased
  have stays : step.after.statusOf id = some .leased := by
    rw [MemStore.statusOf, found, Option.map_some, leased]
  have moved := moving id
  rw [found] at moved
  obtain ⟨store, call, result, next⟩ := step
  generalize earlier : store.tasks.lookup id = before at moved
  cases moved with
  | untouched => exact (holds id record earlier leased).snoc stays
  | inserted => cases leased
  | @reserved opts reading sorting tasks record candidate returned =>
    exact ⟨past, _, [], opts, reading, sorting, rfl, rfl, rfl, returned, by simp⟩
  | expired => cases leased
  | settled onLease same held =>
    rw [owner_of_leaseCall onLease leased]
    exact (holds id _ earlier (leased_of_leaseHeld held).1).snoc stays
  | replayed => cases leased

/-! ## Attempts -/

/-- Every record has the attempts that its tally says. -/
def AttemptsTallied (past : List StoreStep) (store : MemStore) : Prop :=
  ∀ id record, store.tasks.lookup id = some record →
    record.task.attempts - (tally id past).base = Int64.ofNat (tally id past).reservations

theorem tally_snoc (id : Bytes) (past : List StoreStep) (step : StoreStep) :
    tally id (past ++ [step]) = (tally id past).advance id step := by
  simp [tally]

/-- No call on a lease counts as an attempt. -/
theorem attempts_leaseCall {call : Call} {lease : LeaseCall}
    (onLease : call.leaseCall = some lease) (record : MemRecord) :
    (lease.change record).task.attempts = record.task.attempts := by
  cases call <;> cases onLease <;> rfl

theorem advance_leaseCall {step : StoreStep} {lease : LeaseCall}
    (onLease : step.op.leaseCall = some lease) (id : Bytes) (counted : Tally) :
    counted.advance id step = counted := by
  unfold Tally.advance
  cases callEq : step.op with
  | ack | release | moveToDLQ | extendLease => rfl
  | insert | reserve | replayDLQ => rw [callEq] at onLease; cases onLease

/-- A step that neither inserts, returns nor replays the task leaves its tally. -/
theorem advance_untouched {step : StoreStep} {id : Bytes}
    (notReturned : ¬ step.out.Returns id)
    (notInserted : ∀ task, step.op = .insert task → task.id = id → step.out ≠ .error none)
    (sameStatus : step.before.statusOf id = step.after.statusOf id) (counted : Tally) :
    counted.advance id step = counted := by
  unfold Tally.advance
  cases callEq : step.op with
  | insert task =>
    refine if_neg ?_
    rintro ⟨same, accepted⟩
    exact notInserted task callEq same accepted
  | reserve => exact if_neg notReturned
  | replayDLQ =>
    refine if_neg ?_
    rintro ⟨-, dead, queued⟩
    rw [sameStatus, queued] at dead
    cases dead
  | ack | release | moveToDLQ | extendLease => rfl

theorem AttemptsTallied.step {past : List StoreStep} {step : StoreStep}
    (tallied : AttemptsTallied past step.before) (moving : Moving step) :
    AttemptsTallied (past ++ [step]) step.after := by
  intro id record found
  rw [tally_snoc]
  have moved := moving id
  rw [found] at moved
  obtain ⟨store, call, result, next⟩ := step
  generalize earlier : store.tasks.lookup id = before at moved
  have statusBefore : store.statusOf id = before.map MemRecord.status := by
    rw [MemStore.statusOf, earlier]
  have statusAfter : next.statusOf id = some record.status := by
    rw [MemStore.statusOf, found, Option.map_some]
  cases moved with
  | untouched notReturned notInserted =>
    rw [advance_untouched notReturned notInserted (statusBefore.trans statusAfter.symm)]
    exact tallied id record earlier
  | inserted same => simp [Tally.advance, same]
  | @reserved opts reading sorting tasks record candidate returned =>
    have counted := tallied id record earlier
    simp only [Tally.advance, if_pos returned]
    change record.task.attempts + 1 - _ = _
    rw [Int64.ofNat_add, ← counted, Int64.sub_eq_add_neg, Int64.sub_eq_add_neg,
      Int64.add_assoc, Int64.add_assoc, Int64.add_comm 1]
    rfl
  | @expired opts reading sorting tasks record lapsed notReturned =>
    simp only [Tally.advance, if_neg notReturned]
    exact tallied id record earlier
  | settled onLease same held =>
    rw [advance_leaseCall onLease, attempts_leaseCall onLease]
    exact tallied id _ earlier
  | @replayed opts reading sorting count remaining record dead =>
    have counted := tallied id record earlier
    simp only [Tally.advance, statusBefore, statusAfter, Option.map_some, dead]
    by_cases reset : opts.resetAttempts = true
    · simp [ReplayOptions.replay, ReplayOptions.withDefaults, reset]
    · simpa [ReplayOptions.replay, ReplayOptions.withDefaults, reset] using counted

/-! ## Runs -/

/-- What holds between the steps so far and the store they lead to. -/
structure Accounted (past : List StoreStep) (store : MemStore) : Prop where
  keyed : store.Keyed
  owners : OwnersHold past store
  tallied : AttemptsTallied past store

theorem Accounted.step {past : List StoreStep} {store next : MemStore} {call : Call}
    {result : Result} (accounted : Accounted past store)
    (stepEq : machine.step store call = some (next, result)) :
    Accounted (past ++ [⟨store, call, result, next⟩]) next := by
  have moving := moving_of_step accounted.keyed stepEq
  exact ⟨keyed_step accounted.keyed stepEq, accounted.owners.step moving,
    accounted.tallied.step moving⟩

theorem accounted_empty : Accounted [] {} where
  keyed := MemStore.keyed_empty
  owners id record found := by cases (AList.lookup_empty id).symm.trans found
  tallied id record found := by cases (AList.lookup_empty id).symm.trans found

/-- A call on a lease succeeds only where the guard holds. -/
theorem held_of_settled {step : StoreStep} (moving : Moving step) {lease : LeaseCall}
    (onLease : step.op.leaseCall = some lease) (succeeded : step.out = .error none) :
    ∃ record, step.before.tasks.lookup lease.taskID = some record ∧
      record.leaseHeld lease.consumerID lease.now = true := by
  have moved := moving lease.taskID
  generalize step.before.tasks.lookup lease.taskID = before at moved
  generalize step.after.tasks.lookup lease.taskID = after at moved
  generalize step.op = call at moved onLease
  rw [succeeded] at moved
  cases moved with
  | untouched _ _ notSettled => exact absurd rfl (notSettled lease onLease rfl)
  | inserted => cases onLease
  | settled otherCall same held =>
    rw [onLease, Option.some.injEq] at otherCall
    subst otherCall
    exact ⟨_, rfl, held⟩

/-- What holds of a task's status after one step of a run, and is kept by the
steps in between, holds before a later step. -/
theorem status_between {calls : List Call} {id : Bytes} {front middle back : List StoreStep}
    {first second : StoreStep} (holds : Option TaskStatus → Prop)
    (split : machine.history {} calls = front ++ first :: (middle ++ second :: back))
    (initial : holds (first.after.statusOf id))
    (keeps : ∀ step ∈ middle, Moving step → holds (step.before.statusOf id) →
      holds (step.after.statusOf id)) :
    holds (second.before.statusOf id) := by
  obtain ⟨rest, later⟩ := Machine.history_after split
  have movingMiddle : ∀ step ∈ middle, Moving step := by
    intro step member
    apply moving_of_mem MemStore.keyed_empty
    rw [split]
    simp [member]
  have kept : ∀ step ∈ middle, holds (step.before.statusOf id) → holds (step.after.statusOf id) :=
    fun step member => keeps step member (movingMiddle step member)
  exact Machine.history_keeps (fun store => holds (store.statusOf id)) initial later.symm kept

theorem moving_second {calls : List Call} {front middle back : List StoreStep}
    {first second : StoreStep}
    (split : machine.history {} calls = front ++ first :: (middle ++ second :: back)) :
    Moving first ∧ Moving second := by
  constructor
  · apply moving_of_mem MemStore.keyed_empty
    rw [split]
    simp
  · apply moving_of_mem MemStore.keyed_empty
    rw [split]
    simp

/-- Every run keeps the lifecycle of every task. -/
theorem lifecycle (calls : List Call) : Lifecycle (machine.history {} calls) where
  edges step member := (moving_of_mem MemStore.keyed_empty member).edge
  distinct step member tasks returned := by
    obtain ⟨keyed, stepEq⟩ := keyed_of_mem MemStore.keyed_empty member
    exact distinct_of_step keyed (returned ▸ stepEq)
  once id front first middle second back split firstReturns secondReturns := by
    by_contra! noEntry
    obtain ⟨movingFirst, movingSecond⟩ := moving_second split
    have leasedAfter : first.after.statusOf id ≠ some .queued := by
      rw [(movingFirst.returned firstReturns).2]
      simp
    have notQueued : second.before.statusOf id ≠ some .queued := by
      refine status_between (· ≠ some .queued) split leasedAfter ?_
      intro step member _ notBefore queued
      exact noEntry step member ⟨notBefore, queued⟩
    exact notQueued (movingSecond.returned secondReturns).1
  held front step back lease split onLease succeeded := by
    obtain ⟨accounted, stepEq⟩ := Machine.history_invariant
      (fun _ _ _ _ _ accounted stepEq => Accounted.step accounted stepEq) accounted_empty split
    obtain ⟨record, found, held⟩ :=
      held_of_settled (moving_of_step accounted.keyed stepEq) onLease succeeded
    obtain ⟨leased, owner, inTime⟩ := leased_of_leaseHeld held
    exact ⟨owner ▸ accounted.owners lease.taskID record found leased, record, found, inTime⟩
  closed id front first middle second back split closed returned := by
    obtain ⟨-, movingSecond⟩ := moving_second split
    have closedBefore : second.before.statusOf id = some .done ∨
        second.before.statusOf id = some .expired :=
      status_between (fun status => status = some .done ∨ status = some .expired) split closed
        fun step _ moving closedHere => moving.closed closedHere
    rw [(movingSecond.returned returned).1] at closedBefore
    rcases closedBefore with isDone | isExpired
    · cases isDone
    · cases isExpired
  attempts id front step back record split found := by
    obtain ⟨accounted, stepEq⟩ := Machine.history_invariant
      (fun _ _ _ _ _ accounted stepEq => Accounted.step accounted stepEq) accounted_empty split
    exact (accounted.step stepEq).tallied id record found

/-! ## Leases without a limit -/

/-- The arrangement of candidates by insertion sort. -/
def reserveSort : SliceSort reserveLess := insertionSlice reserveLess_weakOrder

/-- A task reserved at the zero time less its lease, and acknowledged an hour
later. -/
def zeroLeaseCalls : List Call :=
  [.insert { id := ascii "t", availableAt := zeroTime - 10 ^ 9 },
    .reserve { limit := 1, lease := 10 ^ 9, consumerID := ascii "c", now := zeroTime - 10 ^ 9 } 0
      reserveSort,
    .ack (ascii "t") (ascii "c") (zeroTime + 3600 * 10 ^ 9)]

/-- What a successful call on a lease found: whether it came after
`LeaseUntil`. -/
def settledLate (step : StoreStep) : Option (Result × Bool) :=
  step.op.leaseCall.bind fun lease =>
    (step.before.tasks.lookup lease.taskID).map fun record =>
      (step.out, decide (record.task.leaseUntil < lease.now))

/-- A lease that ends at the zero time does not end: the acknowledgement succeeds
after `LeaseUntil`. -/
theorem ack_after_zero_lease :
    ∃ step ∈ machine.history {} zeroLeaseCalls, ∃ lease record,
      step.op.leaseCall = some lease ∧ step.out = .error none ∧
        step.before.tasks.lookup lease.taskID = some record ∧
        record.task.leaseUntil < lease.now := by
  have facts : (machine.history {} zeroLeaseCalls)[2]?.bind settledLate =
      some (.error none, true) := by
    decide +kernel
  obtain ⟨step, stepAt, late⟩ := Option.bind_eq_some_iff.mp facts
  obtain ⟨lease, onLease, rest⟩ := Option.bind_eq_some_iff.mp late
  obtain ⟨record, found, values⟩ := Option.map_eq_some_iff.mp rest
  obtain ⟨succeeded, after⟩ := Prod.mk.inj values
  exact ⟨step, List.mem_of_getElem? stepAt, lease, record, onLease, succeeded, found,
    of_decide_eq_true after⟩

end Plumego.Mq
