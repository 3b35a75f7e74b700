/-
Module: Plumego.Proofs.DependencyGraph
Purpose: The dependencies between the jobs of the scheduler never form a cycle, and the search that
  guards them finds one exactly if a new job would close it.
Trusted boundary: as for the jobs.
Main exports: KeepsOptions, Quiet, keepsOptions_cancelJob, addJob_cases, Sound, dependencies_acyclic
-/
import Plumego.Lib.Traversal
import Plumego.Scheduler.Jobs

namespace Plumego.Scheduler.Jobs

open Plumego.Go Plumego.Lib

/-- The jobs that the job of an identifier lists as its dependencies. -/
def Registry.dependenciesOf (registry : Registry) (id : JobID) : List JobID :=
  ((registry.jobs.lookup id).bind fun job => registry.objects[job]?).elim [] fun object =>
    object.options.dependencies

/-! ## What keeps the jobs and their options -/

/-- For every job that has a version, the item of this version was pushed. -/
def Registry.Recorded (registry : Registry) : Prop :=
  ∀ (job : Nat) object, registry.objects[job]? = some object → 0 < object.scheduleVersion →
    ∃ item ∈ registry.pushed, item.job = job ∧ item.version = object.scheduleVersion

/-- The registry after a function that makes no new job. -/
structure KeepsOptions (before after : Registry) : Prop where
  closed : after.closed = before.closed
  jobs : after.jobs = before.jobs
  options : after.objects.map Job.options = before.objects.map Job.options
  recorded : before.Recorded → after.Recorded

variable {registry before after : Registry} {id : JobID} {job : Nat}

theorem KeepsOptions.refl (registry : Registry) : KeepsOptions registry registry :=
  ⟨rfl, rfl, rfl, fun recorded => recorded⟩

theorem KeepsOptions.trans {first second third : Registry} (one : KeepsOptions first second)
    (two : KeepsOptions second third) : KeepsOptions first third :=
  ⟨two.closed.trans one.closed, two.jobs.trans one.jobs, two.options.trans one.options,
    fun recorded => two.recorded (one.recorded recorded)⟩

theorem map_modify_of_same {Item Key : Type} {key : Item → Key} {change : Item → Item}
    (items : List Item) (place : Nat) (same : ∀ item, key (change item) = key item) :
    (items.modify place change).map key = items.map key := by
  apply List.ext_getElem?
  intro other
  rw [List.getElem?_map, List.getElem?_map, List.getElem?_modify]
  cases items[other]? with
  | none => split <;> rfl
  | some item =>
    split
    · exact congrArg some (same item)
    · rfl

/-- What is at a place after one job was changed. -/
theorem objects_modify {change : Job → Job} {place : Nat} {new : Job}
    (found : (registry.modify job change).objects[place]? = some new) :
    ∃ old, registry.objects[place]? = some old ∧ new = if job = place then change old else old := by
  rw [Registry.modify, List.getElem?_modify] at found
  obtain ⟨old, inside, rfl⟩ := Option.map_eq_some_iff.mp found
  refine ⟨old, inside, ?_⟩
  split <;> rfl

theorem keepsOptions_modify {change : Job → Job} (same : ∀ object,
    (change object).options = object.options ∧ (change object).scheduleVersion = object.scheduleVersion) :
    KeepsOptions registry (registry.modify job change) := by
  refine ⟨rfl, rfl, map_modify_of_same _ _ fun object => (same object).1, fun recorded place new found => ?_⟩
  obtain ⟨old, inside, rfl⟩ := objects_modify found
  rw [apply_ite Job.scheduleVersion, (same old).2, ite_self]
  exact recorded place old inside

/-! ## Steps that only schedule -/

/-- A job before and after steps that may push it. -/
structure SameJob (old new : Job) : Prop where
  id : new.id = old.id
  options : new.options = old.options
  paused : new.paused = old.paused
  canceled : new.canceled = old.canceled
  pushed : old.scheduleVersion ≤ new.scheduleVersion

/-- The registry after steps that may push jobs, and change nothing of who waits for whom. -/
structure Quiet (before after : Registry) : Prop extends KeepsOptions before after where
  dependents : after.dependents = before.dependents
  arrays : after.arrays = before.arrays
  status : after.dependencyStatus = before.dependencyStatus
  objects : ∀ (job : Nat) new, after.objects[job]? = some new →
    ∃ old, before.objects[job]? = some old ∧ SameJob old new

theorem SameJob.refl (object : Job) : SameJob object object := ⟨rfl, rfl, rfl, rfl, Nat.le_refl _⟩

theorem SameJob.trans {first second third : Job} (one : SameJob first second) (two : SameJob second third) :
    SameJob first third :=
  ⟨two.id.trans one.id, two.options.trans one.options, two.paused.trans one.paused,
    two.canceled.trans one.canceled, one.pushed.trans two.pushed⟩

theorem Quiet.refl (registry : Registry) : Quiet registry registry :=
  ⟨KeepsOptions.refl registry, rfl, rfl, rfl, fun _ new found => ⟨new, found, SameJob.refl new⟩⟩

theorem Quiet.trans {first second third : Registry} (one : Quiet first second) (two : Quiet second third) :
    Quiet first third where
  toKeepsOptions := one.toKeepsOptions.trans two.toKeepsOptions
  dependents := two.dependents.trans one.dependents
  arrays := two.arrays.trans one.arrays
  status := two.status.trans one.status
  objects := fun job new found => by
    obtain ⟨middle, between, later⟩ := two.objects job new found
    obtain ⟨old, started, sooner⟩ := one.objects job middle between
    exact ⟨old, started, sooner.trans later⟩

theorem sameJob_modify {change : Job → Job} (same : ∀ object, SameJob object (change object)) {place : Nat}
    {new : Job} (found : (registry.modify job change).objects[place]? = some new) :
    ∃ old, registry.objects[place]? = some old ∧ SameJob old new := by
  obtain ⟨old, inside, rfl⟩ := objects_modify found
  refine ⟨old, inside, ?_⟩
  split
  · exact same old
  · exact SameJob.refl old

theorem quiet_modify {change : Job → Job} (same : ∀ object,
    SameJob object (change object) ∧ (change object).scheduleVersion = object.scheduleVersion) :
    Quiet registry (registry.modify job change) :=
  ⟨keepsOptions_modify fun object => ⟨(same object).1.options, (same object).2⟩, rfl, rfl, rfl,
    fun _ _ => sameJob_modify fun object => (same object).1⟩

theorem sameJob_setJobStateIfIdleLocked (state : JobState) (object : Job) :
    SameJob object (setJobStateIfIdleLocked state object) ∧
      (setJobStateIfIdleLocked state object).scheduleVersion = object.scheduleVersion := by
  unfold setJobStateIfIdleLocked
  split
  · exact ⟨SameJob.refl object, rfl⟩
  · split
    · exact ⟨SameJob.refl object, rfl⟩
    · exact ⟨⟨rfl, rfl, rfl, rfl, Nat.le_refl _⟩, rfl⟩

/-- Pushing a job makes its version positive. -/
theorem quiet_push (registry : Registry) (job : Nat) (runAt : Time) :
    Quiet registry (pushScheduleItemLocked registry job runAt true) ∧
      ∀ new, (pushScheduleItemLocked registry job runAt true).objects[job]? = some new →
        0 < new.scheduleVersion := by
  unfold pushScheduleItemLocked
  cases found : registry.objects[job]? with
  | none =>
    refine ⟨Quiet.refl registry, fun new inside => ?_⟩
    rw [found] at inside
    cases inside
  | some object =>
    dsimp only
    rw [if_pos rfl]
    have raises : ∀ object : Job,
        SameJob object { object with scheduleVersion := object.scheduleVersion + 1 } :=
      fun _ => ⟨rfl, rfl, rfl, rfl, Nat.le_succ _⟩
    refine ⟨⟨⟨rfl, rfl, map_modify_of_same _ _ fun _ => rfl, fun recorded place new inside positive => ?_⟩,
      rfl, rfl, rfl, fun _ _ => sameJob_modify raises⟩, fun new inside => ?_⟩
    · obtain ⟨old, started, rfl⟩ := objects_modify inside
      by_cases same : job = place
      · obtain rfl : object = old := Option.some.inj (found.symm.trans (same ▸ started))
        rw [if_pos same]
        exact ⟨_, List.mem_append_right _ List.mem_cons_self, same, rfl⟩
      · rw [if_neg same] at positive ⊢
        obtain ⟨item, member, isItem⟩ := recorded place old started positive
        exact ⟨item, List.mem_append_left _ member, isItem⟩
    · obtain ⟨old, -, rfl⟩ := objects_modify inside
      rw [if_pos rfl]
      exact Nat.succ_pos _

theorem quiet_scheduleAt (registry : Registry) (job : Nat) (runAt : Time) :
    Quiet registry (scheduleAt registry job runAt) ∧
      ∀ new, (scheduleAt registry job runAt).objects[job]? = some new → 0 < new.scheduleVersion := by
  obtain ⟨quiet, pushed⟩ :=
    quiet_push (registry.modify job (setJobStateIfIdleLocked .scheduled)) job runAt
  exact ⟨(quiet_modify (sameJob_setJobStateIfIdleLocked _)).trans quiet, pushed⟩

theorem quiet_pushScheduleLocked (registry : Registry) (job : Nat) (runAt : Time) :
    Quiet registry (pushScheduleLocked registry job runAt) ∧
      ∀ new, (pushScheduleLocked registry job runAt).objects[job]? = some new →
        0 < new.scheduleVersion := by
  unfold pushScheduleLocked
  cases found : registry.objects[job]? with
  | none =>
    refine ⟨Quiet.refl registry, fun new inside => ?_⟩
    rw [found] at inside
    cases inside
  | some object =>
    dsimp only
    split
    · exact quiet_push registry job runAt
    · exact quiet_scheduleAt registry job runAt

theorem quiet_runAt (registry : Registry) (job : Nat) (runAt : Time) :
    Quiet registry (registry.modify job fun object => { object with runAt := runAt }) :=
  quiet_modify fun _ => ⟨⟨rfl, rfl, rfl, rfl, Nat.le_refl _⟩, rfl⟩

theorem quiet_scheduleNext (registry : Registry) (job : Nat) (base : Time) (delay : Int) :
    Quiet registry (scheduleNext registry job base delay) := by
  unfold scheduleNext
  split
  · exact Quiet.refl registry
  · split
    · exact Quiet.refl registry
    · split
      · exact Quiet.refl registry
      · split
        · exact Quiet.refl registry
        · exact (quiet_runAt ..).trans (quiet_scheduleAt ..).1

theorem quiet_skipDependentJobLocked (registry : Registry) (job : Nat) :
    Quiet registry (skipDependentJobLocked registry job) := by
  unfold skipDependentJobLocked
  split
  · exact Quiet.refl registry
  · split
    · exact (quiet_runAt ..).trans (quiet_scheduleAt ..).1
    · exact quiet_modify fun _ => ⟨⟨rfl, rfl, rfl, rfl, Nat.le_refl _⟩, rfl⟩

theorem resumeJobLocked_spec (registry : Registry) (job : Nat) :
    Quiet (registry.modify job fun object => { object with paused := false }) (resumeJobLocked registry job) ∧
      ∀ new, (resumeJobLocked registry job).objects[job]? = some new → 0 < new.scheduleVersion := by
  unfold resumeJobLocked
  dsimp only
  split
  · rename_i absent
    refine ⟨Quiet.refl _, fun new inside => ?_⟩
    rw [absent] at inside
    cases inside
  · split
    · obtain ⟨quiet, pushed⟩ := quiet_pushScheduleLocked _ job _
      exact ⟨(quiet_runAt ..).trans quiet, pushed⟩
    · exact quiet_pushScheduleLocked ..

/-! ## What takes jobs away -/

theorem keepsOptions_cleanupDependencyTrackingLocked (id : JobID) :
    KeepsOptions registry (cleanupDependencyTrackingLocked registry id job) := by
  have removes : ∀ (dependencies : List JobID) (start : Registry),
      KeepsOptions start (dependencies.foldl (removeDependent id) start) := by
    intro dependencies
    induction dependencies with
    | nil => exact KeepsOptions.refl
    | cons dependency dependencies ih =>
      intro start
      refine KeepsOptions.trans ?_ (ih _)
      unfold removeDependent
      split
      · exact KeepsOptions.refl start
      · exact ⟨rfl, rfl, rfl, fun recorded => recorded⟩
  have cleaned := removes ((registry.objects[job]?).elim [] fun object => object.options.dependencies)
    { registry with dependents := registry.dependents.erase id }
  exact ⟨cleaned.closed, cleaned.jobs, cleaned.options, cleaned.recorded⟩

theorem keepsOptions_applyDependentPolicyLocked {cancelJob : JobID → Nat → Registry → Registry}
    (cancels : ∀ id job registry, KeepsOptions registry (cancelJob id job registry)) (trigger : JobID) :
    KeepsOptions registry (applyDependentPolicyLocked cancelJob id job trigger registry) := by
  unfold applyDependentPolicyLocked
  split
  · exact KeepsOptions.refl registry
  · split
    · exact (quiet_skipDependentJobLocked registry job).toKeepsOptions
    · exact cancels id job registry
    · split
      · exact (quiet_scheduleAt ..).1.toKeepsOptions
      · exact KeepsOptions.refl registry

/-- What every visit keeps, the loop over the dependents keeps. -/
theorem forDependents_induction {holds : Registry → Prop} {visit : JobID → Nat → Registry → Registry}
    (slice : Slice) (initial : holds registry)
    (visits : ∀ {id job current}, holds current → liveJob current id = some job →
      (∃ place < slice.len, current.read slice.array place = some id) → holds (visit id job current)) :
    holds (forDependents slice visit registry) := by
  unfold forDependents
  apply List.foldlRecOn
  · exact initial
  · intro current before place inside
    split
    · exact before
    · split
      · exact before
      · rename_i here _ _ live
        exact visits before live ⟨place, List.mem_range.mp inside, here⟩

theorem keepsOptions_cancelJobLocked (depth : Nat) (id : JobID) (job : Nat) (registry : Registry) :
    KeepsOptions registry (cancelJobLocked depth id job registry) := by
  induction depth generalizing id job registry with
  | zero => exact KeepsOptions.refl registry
  | succ depth ih =>
    unfold cancelJobLocked
    refine KeepsOptions.trans ?_ (keepsOptions_cleanupDependencyTrackingLocked id)
    have marked : KeepsOptions registry (registry.modify job fun object =>
        setJobStateLocked .canceled { object with canceled := true }) :=
      keepsOptions_modify fun _ => ⟨rfl, rfl⟩
    split
    · exact marked
    · exact forDependents_induction _ marked fun kept _ _ =>
        kept.trans (keepsOptions_applyDependentPolicyLocked ih id)

theorem keepsOptions_cancelJob (id : JobID) (job : Nat) (registry : Registry) :
    KeepsOptions registry (cancelJob id job registry) :=
  keepsOptions_cancelJobLocked _ id job registry

theorem keepsOptions_cancelExisting (id : JobID) : KeepsOptions registry (cancelExisting registry id) := by
  unfold cancelExisting
  split
  · exact KeepsOptions.refl registry
  · exact keepsOptions_cancelJob ..

theorem keepsOptions_cancel (id : JobID) : KeepsOptions registry (cancel registry id).1 := by
  unfold cancel
  split
  · exact KeepsOptions.refl registry
  · exact keepsOptions_cancelJob ..

theorem keepsOptions_pause (id : JobID) : KeepsOptions registry (pause registry id).1 := by
  unfold pause
  split
  · exact KeepsOptions.refl registry
  · exact keepsOptions_modify fun _ => ⟨rfl, rfl⟩

theorem keepsOptions_resume (id : JobID) : KeepsOptions registry (resume registry id).1 := by
  unfold resume
  split
  · exact KeepsOptions.refl registry
  · split
    · rename_i job _ _
      have unpaused : KeepsOptions registry
          (registry.modify job fun object => { object with paused := false }) :=
        keepsOptions_modify fun _ => ⟨rfl, rfl⟩
      exact unpaused.trans (resumeJobLocked_spec registry job).1.toKeepsOptions
    · exact KeepsOptions.refl registry

theorem KeepsOptions.dependenciesOf (keeps : KeepsOptions before after) :
    after.dependenciesOf = before.dependenciesOf := by
  funext id
  rw [Registry.dependenciesOf, Registry.dependenciesOf, keeps.jobs]
  cases before.jobs.lookup id with
  | none => rfl
  | some job =>
    have same : (after.objects[job]?).map Job.options = (before.objects[job]?).map Job.options := by
      rw [← List.getElem?_map, ← List.getElem?_map, keeps.options]
    rw [Option.bind_some, Option.bind_some]
    cases here : after.objects[job]? with
    | none =>
      rw [here, Option.map_none, eq_comm, Option.map_eq_none_iff] at same
      rw [same]
    | some object =>
      rw [here, Option.map_some, eq_comm, Option.map_eq_some_iff] at same
      obtain ⟨old, oldEq, optionsEq⟩ := same
      rw [oldEq, Option.elim_some, Option.elim_some, optionsEq]

/-! ## New jobs -/

/-- `addJob` does nothing and fails, or registers a new job with valid dependencies. -/
theorem addJob_cases (registry : Registry) (id : JobID) (kind : JobKind) (runAt : Time)
    (options : JobOptions) :
    (∃ failure, addJob registry id kind runAt options = (registry, .error failure)) ∨
      ∃ name, checkDependencies registry name options.dependencies = .ok () ∧
        wouldCreateDependencyCycleLocked registry name options.dependencies = false ∧
        addJob registry id kind runAt options =
          (register registry (newJob registry.clock name kind runAt options), .ok name) := by
  unfold addJob
  generalize (if id = [] then ascii "job-" ++ formatInt (unixNano registry.clock) else id) = name
  dsimp only
  split
  · exact .inl ⟨_, rfl⟩
  · split
    · exact .inl ⟨_, rfl⟩
    · split
      · exact .inl ⟨_, rfl⟩
      · rename_i checked
        split
        · exact .inl ⟨_, rfl⟩
        · rename_i noCycle
          exact .inr ⟨name, checked, eq_false_of_ne_true noCycle, rfl⟩

theorem keepsOptions_appendDependents (id : JobID) (dependencies : List JobID) (registry : Registry) :
    KeepsOptions registry (dependencies.foldl (appendDependent id) registry) := by
  induction dependencies generalizing registry with
  | nil => exact KeepsOptions.refl registry
  | cons dependency dependencies ih =>
    have appended : KeepsOptions registry (appendDependent id registry dependency) :=
      ⟨rfl, rfl, rfl, fun recorded => recorded⟩
    exact appended.trans (ih _)

/-- But for what the old job of its identifier leaves behind, a registration inserts the job. -/
theorem keepsOptions_register (registry : Registry) (object : Job) :
    KeepsOptions (insertJob (cancelExisting registry object.id) object) (register registry object) := by
  unfold register
  dsimp only
  split
  · exact (keepsOptions_appendDependents ..).trans (quiet_pushScheduleLocked ..).1.toKeepsOptions
  · exact keepsOptions_appendDependents ..

theorem closed_addJob (registry : Registry) (id : JobID) (kind : JobKind) (runAt : Time)
    (options : JobOptions) : (addJob registry id kind runAt options).1.closed = registry.closed := by
  rcases addJob_cases registry id kind runAt options with ⟨_, refused⟩ | ⟨name, -, -, registered⟩
  · rw [refused]
  · rw [registered]
    exact (keepsOptions_register registry _).closed.trans (keepsOptions_cancelExisting name).closed

/-- Every identifier leads to a job. -/
def Registry.Located (registry : Registry) : Prop :=
  ∀ id job, registry.jobs.lookup id = some job → job < registry.objects.length

theorem Registry.Located.keeps (located : before.Located) (keeps : KeepsOptions before after) :
    after.Located := by
  intro id job found
  have same := congrArg List.length keeps.options
  rw [List.length_map, List.length_map] at same
  rw [keeps.jobs] at found
  rw [same]
  exact located id job found

theorem Registry.Located.insertJob (located : registry.Located) (object : Job) :
    (insertJob registry object).Located := by
  intro id job found
  change job < (registry.objects ++ [object]).length
  rw [List.length_append, List.length_singleton]
  by_cases same : id = object.id
  · rw [Jobs.insertJob, same, AList.lookup_insert, Option.some.injEq] at found
    omega
  · rw [Jobs.insertJob, AList.lookup_insert_ne same] at found
    exact Nat.lt_succ_of_lt (located id job found)

theorem dependenciesOf_insertJob (located : registry.Located) (object : Job) :
    (insertJob registry object).dependenciesOf =
      Function.update registry.dependenciesOf object.id object.options.dependencies := by
  funext other
  unfold Registry.dependenciesOf insertJob
  dsimp only
  by_cases same : other = object.id
  · rw [same, Function.update_self, AList.lookup_insert, Option.bind_some, List.getElem?_concat_length]
    rfl
  · rw [Function.update_of_ne same, AList.lookup_insert_ne same]
    cases found : registry.jobs.lookup other with
    | none => rfl
    | some job =>
      rw [Option.bind_some, Option.bind_some, List.getElem?_append_left (located other job found)]

/-! ## The search -/

theorem depPathExistsLocked_eq (registry : Registry) (target : JobID) (depth : Nat) (current : JobID)
    (visited : List JobID) :
    depPathExistsLocked registry target depth current visited =
      Traversal.pathSearch registry.dependenciesOf target depth current visited := by
  induction depth generalizing current visited with
  | zero => rfl
  | succ depth ih =>
    rw [depPathExistsLocked, Traversal.pathSearch]
    simp only [ih]
    rfl

theorem mem_keys_of_dependenciesOf (nonempty : registry.dependenciesOf id ≠ []) :
    id ∈ registry.jobs.keys := by
  cases found : registry.jobs.lookup id with
  | none => simp [Registry.dependenciesOf, found] at nonempty
  | some job => exact AList.mem_keys.mp (AList.lookup_isSome.mp (by rw [found]; rfl))

/-- With a depth that exceeds the number of jobs, the search comes to an end, and finds the target
exactly if there is a path. -/
theorem depPathExistsLocked_spec (registry : Registry) (target dependency : JobID) {depth : Nat}
    (enough : registry.jobs.keys.length < depth) :
    ∃ found visited,
      depPathExistsLocked registry target depth dependency [] = some (found, visited) ∧
        (found = true ↔ Traversal.Reaches registry.dependenciesOf dependency target) := by
  rw [depPathExistsLocked_eq]
  exact Traversal.pathSearch_spec (fun _ => mem_keys_of_dependenciesOf) enough

theorem wouldCreateDependencyCycleLocked_iff {dependencies : List JobID} :
    wouldCreateDependencyCycleLocked registry id dependencies = true ↔
      ∃ dependency ∈ dependencies, Traversal.Reaches registry.dependenciesOf dependency id := by
  rw [wouldCreateDependencyCycleLocked, List.any_eq_true]
  refine exists_congr fun dependency => and_congr_right fun _ => ?_
  obtain ⟨found, visited, searched, reaches⟩ :=
    depPathExistsLocked_spec registry id dependency (Nat.lt_add_of_pos_right Nat.two_pos)
  rw [searched, Option.any_some, Bool.or_eq_true, decide_eq_true_eq, reaches, or_iff_right_of_imp]
  rintro rfl
  exact Relation.ReflTransGen.refl

/-! ## Runs -/

/-- The invariant of the dependencies. -/
structure Sound (registry : Registry) : Prop where
  located : registry.Located
  acyclic : Traversal.Acyclic registry.dependenciesOf

theorem Sound.keeps (sound : Sound before) (keeps : KeepsOptions before after) : Sound after where
  located := sound.located.keeps keeps
  acyclic := keeps.dependenciesOf ▸ sound.acyclic

theorem Sound.addJob (sound : Sound registry) (id : JobID) (kind : JobKind) (runAt : Time)
    (options : JobOptions) : Sound (addJob registry id kind runAt options).1 := by
  rcases addJob_cases registry id kind runAt options with ⟨_, refused⟩ | ⟨name, _, noCycle, registered⟩
  · rw [refused]
    exact sound
  · rw [registered]
    have kept : Sound (cancelExisting registry name) := sound.keeps (keepsOptions_cancelExisting name)
    refine Sound.keeps ⟨kept.located.insertJob _, ?_⟩
      (keepsOptions_register registry (newJob registry.clock name kind runAt options))
    rw [dependenciesOf_insertJob kept.located, ← List.nil_append (newJob ..).options.dependencies]
    apply (Traversal.acyclic_update_iff kept.acyclic (List.nil_subset _)).mpr
    intro dependency member path
    rw [(keepsOptions_cancelExisting name).dependenciesOf] at path
    have found := wouldCreateDependencyCycleLocked_iff.mpr ⟨dependency, member, path⟩
    exact Bool.false_ne_true (noCycle.symm.trans found)

theorem Sound.call (sound : Sound registry) (op : Call) : Sound (call registry op) := by
  cases op with
  | tick elapsed => exact sound.keeps ⟨rfl, rfl, rfl, fun recorded => recorded⟩
  | addJob id kind runAt options => exact sound.addJob id kind runAt options
  | cancel id => exact sound.keeps (keepsOptions_cancel id)
  | pause id => exact sound.keeps (keepsOptions_pause id)
  | resume id => exact sound.keeps (keepsOptions_resume id)

theorem sound_newRegistry (clock : Time) : Sound (newRegistry clock) where
  located := fun _ _ found => by cases found
  acyclic := by
    intro id cycle
    obtain ⟨following, first, -⟩ := Relation.TransGen.head'_iff.mp cycle
    exact absurd first List.not_mem_nil

/-- After every run of calls the dependencies have no cycle, and the search finds one exactly if the
new dependencies of a job, in place of its old ones or beside some of them, would close it. At every
depth that exceeds the number of jobs by two it comes to an end, with the same answer. -/
theorem dependencies_acyclic (clock : Time) (ops : List Call) :
    (registryMachine.run (newRegistry clock) ops).isSome = true ∧
    ∀ registry, registryMachine.Reaches (newRegistry clock) ops registry →
      Traversal.Acyclic registry.dependenciesOf ∧
      ∀ id dependencies,
        (∀ kept, kept ⊆ registry.dependenciesOf id →
          (wouldCreateDependencyCycleLocked registry id dependencies = true ↔
            ¬ Traversal.Acyclic
              (Function.update registry.dependenciesOf id (kept ++ dependencies)))) ∧
        ∀ depth dependency, registry.jobs.keys.length + 2 ≤ depth →
          ∃ found visited, depPathExistsLocked registry id depth dependency [] = some (found, visited) ∧
            (found = true ↔ Traversal.Reaches registry.dependenciesOf dependency id) := by
  have steps : ∀ registry op, Sound registry →
      ∃ next out, registryMachine.step registry op = some (next, out) ∧ Sound next :=
    fun registry op sound => ⟨call registry op, (), rfl, sound.call op⟩
  obtain ⟨runs, always⟩ := Machine.reaches_total steps (sound_newRegistry clock) ops
  refine ⟨runs, fun registry reached => ?_⟩
  have sound := always registry reached
  refine ⟨sound.acyclic, fun id dependencies => ⟨fun kept old => ?_, fun depth dependency enough => ?_⟩⟩
  · rw [Traversal.acyclic_update_iff sound.acyclic old, wouldCreateDependencyCycleLocked_iff]
    push Not
    rfl
  · exact depPathExistsLocked_spec registry id dependency (by omega)

end Plumego.Scheduler.Jobs
