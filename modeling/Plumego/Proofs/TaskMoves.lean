/-
Module: Plumego.Proofs.TaskMoves
Purpose: What one call of the task store can do to one task: a relation between
  the record before and after, with the guards, from which the facts about
  runs follow.
Trusted boundary: none
Main exports: MemStore.Keyed, Result.Returns, LeaseCall, Call.leaseCall, Moves,
  MemStore.moves, MemStore.Keyed.call
-/
import Plumego.Mq.MemStore

namespace Plumego.Mq

open Plumego.Go
open Plumego.Lib

/-- Every record is kept under the ID of its task. -/
def MemStore.Keyed (store : MemStore) : Prop :=
  ∀ id record, store.tasks.lookup id = some record → record.task.id = id

/-- A `Reserve` call returned the task. -/
def Result.Returns (id : Bytes) : Result → Prop
  | .tasks reserved => ∃ task ∈ reserved, task.id = id
  | .error _ => False
  | .replayed _ _ => False

instance (id : Bytes) (result : Result) : Decidable (result.Returns id) := by
  cases result <;> dsimp only [Result.Returns] <;> infer_instance

/-- A call that needs the lease of a task, and its effect on the record. -/
structure LeaseCall where
  taskID : Bytes
  consumerID : Bytes
  now : Time
  change : MemRecord → MemRecord

def Call.leaseCall : Call → Option LeaseCall
  | .ack taskID consumerID now => some ⟨taskID, consumerID, now, (·.acked now)⟩
  | .release taskID consumerID opts => some ⟨taskID, consumerID, opts.now, (·.released opts)⟩
  | .moveToDLQ taskID consumerID reason now =>
    some ⟨taskID, consumerID, now, (·.deadLettered reason now)⟩
  | .extendLease taskID consumerID lease now =>
    some ⟨taskID, consumerID, now, (·.extended lease now)⟩
  | .insert _ => none
  | .reserve _ _ _ => none
  | .replayDLQ _ _ _ => none

/-- What a call that returns a result can do to the record of one task. -/
inductive Moves (id : Bytes) : Call → Result → Option MemRecord → Option MemRecord → Prop
  | untouched {call : Call} {result : Result} {record : Option MemRecord}
      (notReturned : ¬ result.Returns id)
      (notInserted : ∀ task, call = .insert task → task.id = id → result ≠ .error none)
      (notSettled : ∀ lease, call.leaseCall = some lease → lease.taskID = id →
        result ≠ .error none) :
      Moves id call result record record
  | inserted {task : Task} (same : task.id = id) :
      Moves id (.insert task) (.error none) none (some ⟨task, .queued, [], zeroTime⟩)
  | reserved {opts : ReserveOptions} {reading : Time} {sorting : SliceSort reserveLess}
      {tasks : List Task} {record : MemRecord}
      (candidate : (opts.withDefaults reading).isCandidate record = true)
      (returned : (Result.tasks tasks).Returns id) :
      Moves id (.reserve opts reading sorting) (.tasks tasks) (some record)
        (some ((opts.withDefaults reading).leaseTo record))
  | expired {opts : ReserveOptions} {reading : Time} {sorting : SliceSort reserveLess}
      {tasks : List Task} {record : MemRecord}
      (lapsed : (opts.withDefaults reading).lapsed record = true)
      (notReturned : ¬ (Result.tasks tasks).Returns id) :
      Moves id (.reserve opts reading sorting) (.tasks tasks) (some record)
        (some { record with status := .expired })
  | settled {call : Call} {lease : LeaseCall} {record : MemRecord}
      (onLease : call.leaseCall = some lease) (same : lease.taskID = id)
      (held : record.leaseHeld lease.consumerID lease.now = true) :
      Moves id call (.error none) (some record) (some (lease.change record))
  | replayed {opts : ReplayOptions} {reading : Time} {sorting : SliceSort replayLess}
      {count remaining : Nat} {record : MemRecord} (dead : record.status = .dead) :
      Moves id (.replayDLQ opts reading sorting) (.replayed count remaining) (some record)
        (some ((opts.withDefaults reading).replay record))

namespace ReserveOptions

variable {opts : ReserveOptions} {record : MemRecord}

theorem queued_of_isCandidate (candidate : opts.isCandidate record = true) :
    record.status = .queued := by
  simp only [isCandidate, Bool.and_eq_true, beq_iff_eq] at candidate
  exact candidate.1.1.1

theorem queued_of_lapsed (lapsed : opts.lapsed record = true) : record.status = .queued := by
  simp only [ReserveOptions.lapsed, Bool.and_eq_true, beq_iff_eq] at lapsed
  exact lapsed.1.1

end ReserveOptions

namespace MemStore

variable {store : MemStore}

/-- A selected entry is a stored candidate. -/
theorem of_mem_selected {opts : ReserveOptions} {sorting : SliceSort reserveLess}
    {entry : Bytes × MemRecord} (member : entry ∈ store.selected opts sorting) :
    store.tasks.lookup entry.1 = some entry.2 ∧ opts.isCandidate entry.2 = true := by
  have sortedMember := List.mem_of_mem_take member
  have filteredMember := (sorting.perm _).subset sortedMember
  rw [List.mem_filter] at filteredMember
  exact ⟨mem_pairs.mp filteredMember.1, filteredMember.2⟩

/-- `Reserve` returns the tasks it selects. -/
theorem returns_selected (keyed : store.Keyed) {opts : ReserveOptions}
    {sorting : SliceSort reserveLess} {id : Bytes} :
    (Result.tasks ((store.selected opts sorting).map fun entry =>
        (opts.leaseTo entry.2).task)).Returns id ↔
      id ∈ (store.selected opts sorting).map Prod.fst := by
  have sameID : ∀ entry ∈ store.selected opts sorting, (opts.leaseTo entry.2).task.id = entry.1 :=
    fun entry member => keyed entry.1 entry.2 (of_mem_selected member).1
  simp only [Result.Returns, List.mem_map]
  constructor
  · rintro ⟨task, ⟨entry, member, rfl⟩, rfl⟩
    exact ⟨entry, member, (sameID entry member).symm⟩
  · rintro ⟨entry, member, rfl⟩
    exact ⟨_, ⟨entry, member, rfl⟩, sameID entry member⟩

/-- No task is selected twice. -/
theorem nodup_selected (opts : ReserveOptions) (sorting : SliceSort reserveLess) :
    ((store.selected opts sorting).map Prod.fst).Nodup := by
  have filtered : (((pairs store.tasks).filter fun entry => opts.isCandidate entry.2).map
      Prod.fst).Nodup :=
    (nodup_pairs_keys store.tasks).sublist (List.filter_sublist.map Prod.fst)
  have sorted := ((sorting.perm _).map Prod.fst).nodup_iff.mpr filtered
  exact sorted.sublist ((List.take_sublist _ _).map Prod.fst)

theorem of_mem_dead {sorting : SliceSort replayLess} {entry : Bytes × MemRecord}
    (member : entry ∈ store.dead sorting) :
    store.tasks.lookup entry.1 = some entry.2 ∧ entry.2.status = .dead := by
  have filteredMember := (sorting.perm _).subset member
  rw [List.mem_filter] at filteredMember
  exact ⟨mem_pairs.mp filteredMember.1, by simpa using filteredMember.2⟩

/-- The four calls on a lease are one function of their parameters. -/
theorem call_of_leaseCall {call : Call} {lease : LeaseCall}
    (onLease : call.leaseCall = some lease) :
    store.call call =
      (store.onLease lease.taskID lease.consumerID lease.now lease.change).map id .error := by
  cases call with
  | ack taskID consumerID now | release taskID consumerID opts
  | moveToDLQ taskID consumerID reason now | extendLease taskID consumerID lease now =>
    cases onLease; rfl
  | insert task | reserve opts reading sorting | replayDLQ opts reading sorting => cases onLease

/-! ## One call -/

theorem moves_insert (id : Bytes) (task : Task) :
    Moves id (.insert task) (.error (store.insert task).2) (store.tasks.lookup id)
      ((store.insert task).1.tasks.lookup id) := by
  have refused : ∀ failure, Moves id (.insert task) (.error (some failure))
      (store.tasks.lookup id) (store.tasks.lookup id) := fun failure =>
    .untouched nofun (fun _ _ _ => nofun) (fun _ _ _ => nofun)
  have accepted : store.tasks.lookup task.id = none →
      Moves id (.insert task) (.error none) (store.tasks.lookup id)
        ((store.tasks.insert task.id ⟨task, .queued, [], zeroTime⟩).lookup id) := by
    intro absent
    by_cases same : task.id = id
    · subst same
      rw [absent, AList.lookup_insert]
      exact .inserted rfl
    · rw [AList.lookup_insert_ne (Ne.symm same)]
      refine .untouched nofun ?_ nofun
      intro other isInsert sameID
      rw [Call.insert.injEq] at isInsert
      exact absurd (isInsert ▸ sameID) same
  unfold insert
  cases found : store.tasks.lookup task.id with
  | some record => simpa using refused errDuplicateTask
  | none =>
    simp only [Option.isSome_none, Bool.false_eq_true, if_false]
    split
    · split
      · exact refused errDuplicateTask
      · exact accepted found
    · exact accepted found

theorem moves_reserve (keyed : store.Keyed) (id : Bytes) (opts : ReserveOptions) (reading : Time)
    (sorting : SliceSort reserveLess) :
    Moves id (.reserve opts reading sorting) (.tasks (store.reserve opts reading sorting).2)
      (store.tasks.lookup id) ((store.reserve opts reading sorting).1.tasks.lookup id) := by
  unfold reserve
  split
  · exact .untouched (by simp [Result.Returns]) nofun nofun
  · have returned : (Result.tasks ((store.selected (opts.withDefaults reading) sorting).map
        fun entry => ((opts.withDefaults reading).leaseTo entry.2).task)).Returns id ↔
        id ∈ (store.selected (opts.withDefaults reading) sorting).map Prod.fst :=
      returns_selected keyed
    simp only [lookup_mapValues]
    cases found : store.tasks.lookup id with
    | none =>
      refine .untouched ?_ nofun nofun
      rw [returned, List.mem_map]
      rintro ⟨entry, member, rfl⟩
      rw [(of_mem_selected member).1] at found
      cases found
    | some record =>
      by_cases chosen : id ∈ (store.selected (opts.withDefaults reading) sorting).map Prod.fst
      · rw [Option.map_some, if_pos chosen]
        refine .reserved ?_ (returned.mpr chosen)
        obtain ⟨entry, member, rfl⟩ := List.mem_map.mp chosen
        obtain ⟨stored, candidate⟩ := of_mem_selected member
        rw [stored, Option.some.injEq] at found
        exact found ▸ candidate
      · rw [Option.map_some, if_neg chosen, ReserveOptions.expire]
        have notReturned := mt returned.mp chosen
        split
        · rename_i lapsed
          exact .expired lapsed notReturned
        · exact .untouched notReturned nofun nofun

theorem moves_leaseCall (id : Bytes) {call : Call} {lease : LeaseCall}
    (onLease : call.leaseCall = some lease) :
    Moves id call (store.call call).2 (store.tasks.lookup id)
      ((store.call call).1.tasks.lookup id) := by
  have notInsert : ∀ task, call ≠ .insert task := by
    rintro task rfl
    cases onLease
  have refused : ∀ failure, Moves id call (.error (some failure)) (store.tasks.lookup id)
      (store.tasks.lookup id) := fun failure =>
    .untouched nofun (fun _ _ _ => nofun) (fun _ _ _ => nofun)
  rw [call_of_leaseCall onLease, MemStore.onLease]
  cases found : store.tasks.lookup lease.taskID with
  | none => exact refused errTaskNotFound
  | some record =>
    simp only []
    split
    · rename_i held
      by_cases same : lease.taskID = id
      · subst same
        simp only [Prod.map, id_eq, AList.lookup_insert, found]
        exact .settled onLease rfl held
      · simp only [Prod.map, id_eq, AList.lookup_insert_ne (Ne.symm same)]
        refine .untouched nofun (fun task isInsert => absurd isInsert (notInsert task)) ?_
        intro other otherCall sameID
        rw [onLease, Option.some.injEq] at otherCall
        exact absurd (otherCall ▸ sameID) same
    · exact refused errLeaseLost

theorem moves_replayDLQ (id : Bytes) (opts : ReplayOptions) (reading : Time)
    (sorting : SliceSort replayLess) :
    Moves id (.replayDLQ opts reading sorting) (store.call (.replayDLQ opts reading sorting)).2
      (store.tasks.lookup id)
      ((store.call (.replayDLQ opts reading sorting)).1.tasks.lookup id) := by
  simp only [call, replayDLQ]
  split
  · exact .untouched nofun nofun nofun
  · simp only [Prod.map, id_eq, lookup_mapValues]
    cases found : store.tasks.lookup id with
    | none => exact .untouched nofun nofun nofun
    | some record =>
      rw [Option.map_some]
      split
      · rename_i chosen
        refine .replayed ?_
        obtain ⟨entry, member, rfl⟩ := List.mem_map.mp chosen
        obtain ⟨stored, dead⟩ := of_mem_dead (List.mem_of_mem_take member)
        rw [stored, Option.some.injEq] at found
        exact found ▸ dead
      · exact .untouched nofun nofun nofun

/-- What a call does to the record of a task is one of the moves. -/
theorem moves (keyed : store.Keyed) (id : Bytes) (call : Call) :
    Moves id call (store.call call).2 (store.tasks.lookup id)
      ((store.call call).1.tasks.lookup id) := by
  cases call with
  | insert task => exact moves_insert id task
  | reserve opts reading sorting => exact moves_reserve keyed id opts reading sorting
  | ack taskID consumerID now | release taskID consumerID opts
  | moveToDLQ taskID consumerID reason now | extendLease taskID consumerID lease now =>
    exact moves_leaseCall id rfl
  | replayDLQ opts reading sorting => exact moves_replayDLQ id opts reading sorting

/-- What `Reserve` returns has no task twice. -/
theorem distinct_reserved (keyed : store.Keyed) (opts : ReserveOptions) (reading : Time)
    (sorting : SliceSort reserveLess) :
    ((store.reserve opts reading sorting).2.map Task.id).Nodup := by
  unfold reserve
  split
  · exact List.nodup_nil
  · have sameIDs : ((store.selected (opts.withDefaults reading) sorting).map fun entry =>
        ((opts.withDefaults reading).leaseTo entry.2).task).map Task.id =
        (store.selected (opts.withDefaults reading) sorting).map Prod.fst := by
      rw [List.map_map]
      apply List.map_congr_left
      intro entry member
      exact keyed entry.1 entry.2 (of_mem_selected member).1
    simp only [sameIDs]
    exact nodup_selected _ sorting

end MemStore

/-! ## What the moves keep -/

/-- No call on a lease changes which task a record is of. -/
theorem LeaseCall.id_change {call : Call} {lease : LeaseCall}
    (onLease : call.leaseCall = some lease) (record : MemRecord) :
    (lease.change record).task.id = record.task.id := by
  cases call <;> cases onLease <;> rfl

/-- Every call keeps the records under their IDs. -/
theorem MemStore.Keyed.call {store : MemStore} (keyed : store.Keyed) (call : Call) :
    (store.call call).1.Keyed := by
  intro id record found
  have moved := MemStore.moves keyed id call
  rw [found] at moved
  generalize (store.call call).2 = result at moved
  generalize earlier : store.tasks.lookup id = before at moved
  cases moved with
  | untouched => exact keyed id record earlier
  | inserted same => exact same
  | reserved | expired =>
    have kept := keyed id _ earlier
    exact kept
  | settled onLease => exact (LeaseCall.id_change onLease _).trans (keyed id _ earlier)
  | replayed =>
    have kept := keyed id _ earlier
    exact kept

theorem MemStore.keyed_empty : MemStore.Keyed {} := by
  intro id record found
  cases (AList.lookup_empty id).symm.trans found

end Plumego.Mq
