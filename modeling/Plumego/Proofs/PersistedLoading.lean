/-
Module: Plumego.Proofs.PersistedLoading
Purpose: Which orders of the stored jobs let the scheduler restore all of them: those in which a job
  with dependencies comes after the jobs with dependencies that it depends on.
Trusted boundary: as for the stored jobs.
Main exports: Persisted, Restored, InOrder, Loaded, loaded_add_iff, loads_all_iff
-/
import Plumego.Proofs.DependencyGraph
import Plumego.Scheduler.Persisted

namespace Plumego.Scheduler.Jobs

open Plumego.Go Plumego.Lib

/-- A set of stored jobs, as the scheduler has left them: named differently, each with an instant, and
with tasks that are registered. What a job depends on is among them, and not the job itself over
others. -/
structure Persisted (registered : Bytes → Bool) (stored : List StoredJob) : Prop where
  distinct : (stored.map StoredJob.id).Nodup
  named : ∀ item ∈ stored, item.id ≠ []
  timed : ∀ item ∈ stored, isZero item.runAt = false
  tasks : ∀ item ∈ stored, item.taskName ≠ [] ∧ registered item.taskName = true
  targets : ∀ item ∈ stored, ∀ id ∈ item.dependencies, ∃ other ∈ stored, other.id = id
  acyclic : Traversal.Acyclic fun id =>
    ((stored.find? fun item => item.id = id).map StoredJob.dependencies).getD []

/-- A stored job is registered, with its dependencies. -/
structure Restored (registry : Registry) (item : StoredJob) : Prop where
  registered : item.id ∈ registry.jobs
  dependencies : registry.dependenciesOf item.id = item.dependencies

/-- Every job of a list comes after the jobs that it depends on, where these are not there before. -/
def InOrder (known : List JobID) : List StoredJob → Prop
  | [] => True
  | item :: rest => (∀ id ∈ item.dependencies, id ∈ known) ∧ InOrder (item.id :: known) rest

/-- The jobs with dependencies. -/
def dependent (stored : List StoredJob) : List StoredJob :=
  stored.filter fun item => 0 < item.dependencies.length

/-- The jobs without. -/
def independent (stored : List StoredJob) : List StoredJob :=
  stored.filter fun item => !decide (0 < item.dependencies.length)

/-- A registry with the jobs of a list and no other. -/
structure Loaded (registry : Registry) (items : List StoredJob) : Prop where
  sound : Sound registry
  opened : registry.closed = false
  known : ∀ id, id ∈ registry.jobs ↔ id ∈ items.map StoredJob.id
  restored : ∀ item ∈ items, Restored registry item
  complete : ∀ item ∈ items, ∀ id ∈ item.dependencies, id ∈ registry.jobs

instance decidableInOrder : (known : List JobID) → (items : List StoredJob) →
    Decidable (InOrder known items)
  | _, [] => inferInstanceAs (Decidable True)
  | known, item :: rest =>
    have := decidableInOrder (item.id :: known) rest
    inferInstanceAs (Decidable (_ ∧ _))

variable {registry : Registry} {registered : Bytes → Bool} {items stored : List StoredJob}
  {item : StoredJob}

theorem inOrder_congr {known other : List JobID} (same : ∀ id, id ∈ known ↔ id ∈ other) :
    InOrder known stored ↔ InOrder other stored := by
  induction stored generalizing known other with
  | nil => exact Iff.rfl
  | cons item stored ih =>
    have more : ∀ id, id ∈ item.id :: known ↔ id ∈ item.id :: other := fun id => by
      rw [List.mem_cons, List.mem_cons, same]
    rw [InOrder, InOrder, ih more]
    simp only [same]

/-! ## One job -/

theorem checkDependencies_eq_ok {id : JobID} {dependencies : List JobID}
    (present : ∀ dependency ∈ dependencies, dependency ≠ id ∧ dependency ∈ registry.jobs) :
    checkDependencies registry id dependencies = .ok () := by
  induction dependencies with
  | nil => rfl
  | cons dependency dependencies ih =>
    obtain ⟨different, inside⟩ := present dependency List.mem_cons_self
    obtain ⟨job, found⟩ := Option.isSome_iff_exists.mp (AList.lookup_isSome.mpr inside)
    rw [checkDependencies, if_neg different, found]
    exact ih (List.forall_mem_of_forall_mem_cons present)

theorem mem_of_checkDependencies {id : JobID} {dependencies : List JobID}
    (checked : checkDependencies registry id dependencies = .ok ()) :
    ∀ dependency ∈ dependencies, dependency ∈ registry.jobs := by
  induction dependencies with
  | nil => exact List.forall_mem_nil _
  | cons first dependencies ih =>
    unfold checkDependencies at checked
    split at checked
    · cases checked
    · split at checked
      · cases checked
      · rename_i job found
        intro dependency member
        rcases List.mem_cons.mp member with rfl | later
        · exact AList.lookup_isSome.mp (by rw [found]; rfl)
        · exact ih checked dependency later

/-- From the jobs of the list no path leads to another job. -/
theorem Loaded.mem_of_reaches (loaded : Loaded registry items) {start target : JobID}
    (inside : start ∈ registry.jobs)
    (path : Traversal.Reaches registry.dependenciesOf start target) : target ∈ registry.jobs := by
  induction path with
  | refl => exact inside
  | tail _ step ih =>
    rename_i middle last _
    obtain ⟨item, member, sameId⟩ := List.mem_map.mp ((loaded.known middle).mp ih)
    rw [← sameId, (loaded.restored item member).dependencies] at step
    exact loaded.complete item member last step

/-- A new job with a name of its own is registered if all its dependencies are. -/
theorem Loaded.add (loaded : Loaded registry items) (options : JobOptions) (fresh : item.id ∉ registry.jobs)
    (named : item.id ≠ []) (timed : isZero item.runAt = false)
    (sameDependencies : options.dependencies = item.dependencies)
    (present : ∀ id ∈ item.dependencies, id ∈ registry.jobs) :
    Loaded (schedule registry item.id item.runAt options).1 (item :: items) := by
  have checked : checkDependencies registry item.id options.dependencies = .ok () := by
    apply checkDependencies_eq_ok
    intro dependency member
    rw [sameDependencies] at member
    exact ⟨fun same => fresh (same ▸ present dependency member), present dependency member⟩
  have noCycle : wouldCreateDependencyCycleLocked registry item.id options.dependencies = false := by
    apply eq_false_of_ne_true
    intro found
    obtain ⟨dependency, member, path⟩ := wouldCreateDependencyCycleLocked_iff.mp found
    rw [sameDependencies] at member
    exact fresh (loaded.mem_of_reaches (present dependency member) path)
  have absent : registry.jobs.lookup item.id = none := AList.lookup_eq_none.mpr fresh
  have noneLive : liveJob registry item.id = none := by rw [liveJob, absent]; rfl
  have scheduled : schedule registry item.id item.runAt options =
      (register registry (newJob registry.clock item.id .delay item.runAt options), .ok item.id) := by
    simp only [schedule, timed, Bool.false_eq_true, if_false, addJob, named, loaded.opened, noneLive,
      Option.isSome_none, Bool.and_false, checked, noCycle]
  have still : cancelExisting registry item.id = registry := by rw [cancelExisting, absent]
  have keeps := keepsOptions_register registry (newJob registry.clock item.id .delay item.runAt options)
  change KeepsOptions (insertJob (cancelExisting registry item.id) _) _ at keeps
  rw [still] at keeps
  have graph := keeps.dependenciesOf
  rw [dependenciesOf_insertJob loaded.sound.located] at graph
  have members : ∀ id, id ∈ (register registry
      (newJob registry.clock item.id .delay item.runAt options)).jobs ↔
        id = item.id ∨ id ∈ registry.jobs := by
    intro id
    rw [keeps.jobs]
    exact AList.mem_insert _
  have soundAfter := loaded.sound.addJob item.id .delay item.runAt options
  have openedAfter := closed_addJob registry item.id .delay item.runAt options
  rw [scheduled]
  simp only [schedule, timed, Bool.false_eq_true, if_false] at scheduled
  rw [scheduled] at soundAfter openedAfter
  refine ⟨soundAfter, openedAfter.trans loaded.opened, fun id => ?_, fun other member => ?_, ?_⟩
  · rw [members, loaded.known, List.map_cons, List.mem_cons]
  · rcases List.mem_cons.mp member with rfl | earlier
    · refine ⟨(members _).mpr (.inl rfl), ?_⟩
      rw [graph, ← sameDependencies]
      exact Function.update_self ..
    · have old := loaded.restored other earlier
      refine ⟨(members _).mpr (.inr old.registered), ?_⟩
      rw [graph, ← old.dependencies]
      have different : other.id ≠ item.id := fun same => fresh (same ▸ old.registered)
      exact Function.update_of_ne different _ _
  · intro other member id listed
    rcases List.mem_cons.mp member with rfl | earlier
    · exact (members id).mpr (.inr (present id listed))
    · exact (members id).mpr (.inr (loaded.complete other earlier id listed))

/-- A job with a dependency that is not there is refused. -/
theorem schedule_refused (options : JobOptions) {id : JobID}
    (listed : id ∈ options.dependencies) (absent : id ∉ registry.jobs) :
    (schedule registry item.id item.runAt options).1 = registry := by
  unfold schedule
  split
  · rfl
  · rcases addJob_cases registry item.id .delay item.runAt options with ⟨_, refused⟩ | ⟨_, checked, -, -⟩
    · rw [refused]
    · exact absurd (mem_of_checkDependencies checked id listed) absent

/-! ## The two passes -/

/-- What a stored job needs to be restored, but for its dependencies. -/
structure Valid (registered : Bytes → Bool) (item : StoredJob) : Prop where
  named : item.id ≠ []
  timed : isZero item.runAt = false
  task : item.taskName ≠ []
  registered : registered item.taskName = true

/-- The first pass restores every job without dependencies, and puts off the others. -/
theorem loaded_loadPlain (valid : ∀ item ∈ stored, Valid registered item) (loaded : Loaded registry items)
    (distinct : (stored.map StoredJob.id ++ items.map StoredJob.id).Nodup) :
    (loadPlain registered registry stored).2 = dependent stored ∧
      Loaded (loadPlain registered registry stored).1 ((independent stored).reverse ++ items) := by
  induction stored generalizing registry items with
  | nil => exact ⟨rfl, loaded⟩
  | cons item stored ih =>
    have validItem := valid item List.mem_cons_self
    have validRest := List.forall_mem_of_forall_mem_cons valid
    rw [List.map_cons, List.cons_append, List.nodup_cons] at distinct
    rw [loadPlain, if_neg validItem.task, validItem.registered, if_neg Bool.noConfusion]
    by_cases depends : 0 < item.dependencies.length
    · obtain ⟨put, after⟩ := ih validRest loaded distinct.2
      rw [if_pos depends, dependent, independent, List.filter_cons_of_pos (by simpa only [decide_eq_true_eq] using depends),
        List.filter_cons_of_neg (by rw [decide_eq_true depends]; decide)]
      exact ⟨congrArg (item :: ·) put, after⟩
    · have noneListed : item.dependencies = [] := by
        rwa [List.length_pos_iff, not_not] at depends
      have fresh : item.id ∉ registry.jobs := fun inside =>
        distinct.1 (List.mem_append_right _ ((loaded.known item.id).mp inside))
      have more : Loaded (schedule registry item.id item.runAt (buildLoadOpts item)).1 (item :: items) :=
        loaded.add (buildLoadOpts item) fresh validItem.named validItem.timed noneListed.symm
          (fun id listed => absurd (noneListed ▸ listed) List.not_mem_nil)
      rw [if_neg depends, dependent, independent,
        List.filter_cons_of_neg (by rw [decide_eq_false depends]; decide),
        List.filter_cons_of_pos (by rw [decide_eq_false depends]; rfl), List.reverse_cons,
        List.append_assoc]
      apply ih validRest more
      rw [List.map_cons, List.nodup_middle, List.nodup_cons]
      exact distinct

/-- The second pass loses no job and invents none, and restores all its jobs exactly if each comes
after those that it depends on. -/
theorem restored_loadDependent (valid : ∀ item ∈ stored, Valid registered item)
    (loaded : Loaded registry items)
    (distinct : (stored.map StoredJob.id ++ items.map StoredJob.id).Nodup) :
    (∀ item ∈ items, Restored (loadDependent registered registry stored) item) ∧
    (∀ id ∈ (loadDependent registered registry stored).jobs,
      id ∈ items.map StoredJob.id ∨ id ∈ stored.map StoredJob.id) ∧
    ((∀ item ∈ stored, Restored (loadDependent registered registry stored) item) ↔
      InOrder (items.map StoredJob.id) stored) := by
  induction stored generalizing registry items with
  | nil =>
    refine ⟨loaded.restored, fun id inside => .inl ((loaded.known id).mp inside), ?_⟩
    exact ⟨fun _ => trivial, fun _ _ member => absurd member List.not_mem_nil⟩
  | cons item stored ih =>
    have validItem := valid item List.mem_cons_self
    have validRest := List.forall_mem_of_forall_mem_cons valid
    rw [List.map_cons, List.cons_append, List.nodup_cons] at distinct
    rw [loadDependent, validItem.registered, if_neg Bool.noConfusion, InOrder]
    by_cases present : ∀ id ∈ item.dependencies, id ∈ registry.jobs
    · have fresh : item.id ∉ registry.jobs := fun inside =>
        distinct.1 (List.mem_append_right _ ((loaded.known item.id).mp inside))
      have distinctMore : (stored.map StoredJob.id ++ (item :: items).map StoredJob.id).Nodup := by
        rw [List.map_cons, List.nodup_middle, List.nodup_cons]
        exact distinct
      obtain ⟨kept, none, all⟩ := ih validRest
        (loaded.add { buildLoadOpts item with
            dependencies := item.dependencies
            dependencyPolicy := item.dependencyPolicy }
          fresh validItem.named validItem.timed rfl present) distinctMore
      refine ⟨List.forall_mem_of_forall_mem_cons kept, fun id inside => ?_, ?_⟩
      · rcases none id inside with early | late
        · rw [List.map_cons, List.mem_cons] at early
          rcases early with rfl | early
          · exact .inr List.mem_cons_self
          · exact .inl early
        · exact .inr (List.mem_cons_of_mem _ late)
      · rw [List.forall_mem_cons, all, List.map_cons]
        constructor
        · rintro ⟨-, later⟩
          exact ⟨fun id listed => (loaded.known id).mp (present id listed), later⟩
        · rintro ⟨-, later⟩
          exact ⟨kept item List.mem_cons_self, later⟩
    · push Not at present
      obtain ⟨id, listed, absent⟩ := present
      rw [schedule_refused { buildLoadOpts item with
          dependencies := item.dependencies
          dependencyPolicy := item.dependencyPolicy } listed absent]
      obtain ⟨kept, none, -⟩ := ih validRest loaded distinct.2
      refine ⟨kept, fun other inside => ?_, ?_⟩
      · rcases none other inside with early | late
        · exact .inl early
        · exact .inr (List.mem_cons_of_mem _ late)
      · constructor
        · intro all
          rcases none item.id (all item List.mem_cons_self).registered with early | late
          · exact absurd (List.mem_append_right _ early) distinct.1
          · exact absurd (List.mem_append_left _ late) distinct.1
        · rintro ⟨inside, -⟩
          exact absurd ((loaded.known id).mpr (inside id listed)) absent

/-! ## Restoring all jobs -/

theorem loaded_newRegistry (clock : Time) : Loaded (newRegistry clock) [] where
  sound := sound_newRegistry clock
  opened := rfl
  known := fun _ => Iff.rfl
  restored := List.forall_mem_nil _
  complete := List.forall_mem_nil _

/-- A new scheduler restores every one of its stored jobs exactly if the list that the store returns
has each job with dependencies after the jobs with dependencies that it depends on. -/
theorem loads_all_iff (clock : Time) (registered : Bytes → Bool) (stored : List StoredJob)
    (persisted : Persisted registered stored) :
    (∀ item ∈ stored, Restored (loadPersisted registered (newRegistry clock) stored) item) ↔
      InOrder ((independent stored).map StoredJob.id) (dependent stored) := by
  have valid : ∀ item ∈ stored, Valid registered item := fun item member =>
    ⟨persisted.named item member, persisted.timed item member, (persisted.tasks item member).1,
      (persisted.tasks item member).2⟩
  obtain ⟨put, loaded⟩ := loaded_loadPlain valid (loaded_newRegistry clock) (by
    rw [List.map_nil, List.append_nil]
    exact persisted.distinct)
  rw [List.append_nil] at loaded
  have split : (dependent stored ++ independent stored).Perm stored :=
    List.filter_append_perm (fun item : StoredJob => decide (0 < item.dependencies.length)) stored
  have distinct : ((dependent stored).map StoredJob.id ++
      (independent stored).reverse.map StoredJob.id).Nodup := by
    rw [← List.map_append]
    refine (List.Perm.nodup_iff (List.Perm.map _ ?_)).mpr persisted.distinct
    exact (List.Perm.append_left _ (List.reverse_perm _)).trans split
  have validDependent : ∀ item ∈ dependent stored, Valid registered item := fun item member =>
    valid item (List.mem_of_mem_filter member)
  obtain ⟨kept, -, all⟩ := restored_loadDependent validDependent loaded distinct
  change (∀ item ∈ stored, Restored (loadDependent registered
    (loadPlain registered (newRegistry clock) stored).1
    (loadPlain registered (newRegistry clock) stored).2) item) ↔ _
  rw [put]
  have whole : InOrder ((independent stored).reverse.map StoredJob.id) (dependent stored) ↔
      InOrder ((independent stored).map StoredJob.id) (dependent stored) :=
    inOrder_congr fun id => by simp
  rw [← whole, ← all]
  constructor
  · exact fun restored item member => restored item (List.mem_of_mem_filter member)
  · intro restored item member
    rcases List.mem_append.mp (split.mem_iff.mpr member) with depends | free
    · exact restored item depends
    · exact kept item (List.mem_reverse.mpr free)

/-- A job with an instant and the dependencies given. -/
def storedJob (id : String) (dependencies : List JobID) : StoredJob :=
  ⟨ascii id, 5, ascii "task", .allowConcurrent, 1, dependencies, .skip⟩

/-- A job that depends on another is restored wherever it stands in the list, if that one has no
dependencies. -/
theorem loads_all_pair :
    Restored (loadPersisted (fun _ => true) (newRegistry 0)
        [storedJob "b" [ascii "a"], storedJob "a" []]) (storedJob "b" [ascii "a"]) ∧
      Restored (loadPersisted (fun _ => true) (newRegistry 0)
        [storedJob "b" [ascii "a"], storedJob "a" []]) (storedJob "a" []) := by
  have persisted : Persisted (fun _ => true) [storedJob "b" [ascii "a"], storedJob "a" []] := {
    distinct := by decide
    named := by decide
    timed := by decide
    tasks := by decide
    targets := by decide
    acyclic := by
      refine Traversal.acyclic_of_rank (fun id => if id = ascii "b" then 1 else 0) fun id following => ?_
      by_cases first : id = ascii "b"
      · rw [first]
        intro member
        rw [List.mem_singleton.mp member]
        decide
      · intro member
        by_cases second : id = ascii "a"
        · rw [second] at member
          cases member
        · simp [storedJob, eq_comm, first, second] at member }
  have all := (loads_all_iff 0 (fun _ => true) _ persisted).mpr (by decide)
  exact ⟨all _ List.mem_cons_self, all _ (List.mem_cons_of_mem _ List.mem_cons_self)⟩

/-- A job is lost if the job that it depends on has dependencies too and comes after it. -/
theorem chain_not_restored :
    ¬ ∀ item ∈ [storedJob "c" [ascii "b"], storedJob "b" [ascii "a"], storedJob "a" []],
      Restored (loadPersisted (fun _ => true) (newRegistry 0)
        [storedJob "c" [ascii "b"], storedJob "b" [ascii "a"], storedJob "a" []]) item := by
  intro restored
  have present := (restored (storedJob "c" [ascii "b"]) List.mem_cons_self).registered
  revert present
  decide +kernel

end Plumego.Scheduler.Jobs
