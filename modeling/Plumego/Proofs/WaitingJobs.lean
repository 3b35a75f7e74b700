/-
Module: Plumego.Proofs.WaitingJobs
Purpose: A job whose dependencies have all succeeded has been put on the schedule, as long as it was
  registered before the last of them did and no job is taken away that others wait for.
Trusted boundary: as for the jobs
Main exports: settled_triggerDependentJobs, Tracked, Waits, regular, Waits.act, met_job_pushed
-/
import Plumego.Proofs.DependencyGraph
import Plumego.Scheduler.Completions

namespace Plumego.Scheduler.Jobs

open Plumego.Go Plumego.Lib

variable {registry before after : Registry} {id : JobID} {job : Nat}

/-! ## The loop over the dependents -/

/-- The jobs that are told when a job has succeeded. -/
def Registry.dependentsOf (registry : Registry) (dependency : JobID) : List JobID :=
  (registry.dependents.lookup dependency).elim [] fun slice =>
    (registry.arrays.getD slice.array []).take slice.len

theorem mem_dependentsOf {dependency : JobID} {slice : Slice}
    (found : registry.dependents.lookup dependency = some slice) :
    id ∈ registry.dependentsOf dependency ↔
      ∃ place < slice.len, registry.read slice.array place = some id := by
  unfold Registry.dependentsOf Registry.read
  rw [found, Option.elim_some, List.mem_iff_getElem?, List.getD_eq_getElem?_getD]
  cases registry.arrays[slice.array]? with
  | none => simp
  | some items =>
    simp only [Option.getD_some, Option.bind_some, List.getElem?_take]
    constructor
    · rintro ⟨place, here⟩
      split at here
      · exact ⟨place, by assumption, here⟩
      · cases here
    · rintro ⟨place, inside, here⟩
      exact ⟨place, by rw [if_pos inside]; exact here⟩

theorem Quiet.dependentsOf (quiet : Quiet before after) (dependency : JobID) :
    after.dependentsOf dependency = before.dependentsOf dependency := by
  unfold Registry.dependentsOf
  rw [quiet.dependents, quiet.arrays]

/-- One round of the loop. -/
def visitPlace (slice : Slice) (visit : JobID → Nat → Registry → Registry) (registry : Registry)
    (place : Nat) : Registry :=
  match registry.read slice.array place with
  | none => registry
  | some id =>
    match liveJob registry id with
    | none => registry
    | some job => visit id job registry

/-- A loop of quiet visits is quiet, and what each visit achieves for its job, it achieves for all jobs
in the places it goes through, if it lasts. -/
theorem visitPlaces_spec {slice : Slice} {visit : JobID → Nat → Registry → Registry}
    {achieved : JobID → Registry → Prop}
    (visits : ∀ current id job, liveJob current id = some job →
      Quiet current (visit id job current) ∧ achieved id (visit id job current))
    (dead : ∀ current id, liveJob current id = none → achieved id current)
    (lasts : ∀ id {first second}, Quiet first second → achieved id first → achieved id second)
    (places : List Nat) {current : Registry} (quiet : Quiet registry current) :
    Quiet current (places.foldl (visitPlace slice visit) current) ∧
      ∀ place ∈ places, ∀ id, registry.read slice.array place = some id →
        achieved id (places.foldl (visitPlace slice visit) current) := by
  induction places generalizing current with
  | nil => exact ⟨Quiet.refl current, List.forall_mem_nil _⟩
  | cons place places ih =>
    have sameRead : current.read slice.array place = registry.read slice.array place := by
      unfold Registry.read
      rw [quiet.arrays]
    have first : Quiet current (visitPlace slice visit current place) ∧
        ∀ id, registry.read slice.array place = some id →
          achieved id (visitPlace slice visit current place) := by
      unfold visitPlace
      rw [sameRead]
      cases here : registry.read slice.array place with
      | none => exact ⟨Quiet.refl current, fun _ found => by cases found⟩
      | some id =>
        dsimp only
        cases live : liveJob current id with
        | none =>
          refine ⟨Quiet.refl current, fun other found => ?_⟩
          cases found
          exact dead current id live
        | some job =>
          obtain ⟨step, done⟩ := visits current id job live
          refine ⟨step, fun other found => ?_⟩
          cases found
          exact done
    obtain ⟨rest, later⟩ := ih (quiet.trans first.1)
    refine ⟨first.1.trans rest, fun other member id found => ?_⟩
    rcases List.mem_cons.mp member with rfl | behind
    · exact lasts id rest (first.2 id found)
    · exact later other behind id found

/-- A job that is to run and was never pushed. -/
def Job.waits (object : Job) : Bool :=
  !object.paused && !object.canceled && decide (object.scheduleVersion = 0)

theorem Job.waits_iff {object : Job} :
    object.waits = true ↔
      object.paused = false ∧ object.canceled = false ∧ object.scheduleVersion = 0 := by
  simp [Job.waits, and_assoc]

theorem SameJob.waits {old new : Job} (same : SameJob old new) (waits : new.waits = true) :
    old.waits = true := by
  obtain ⟨unpaused, live, unpushed⟩ := Job.waits_iff.mp waits
  exact Job.waits_iff.mpr ⟨same.paused ▸ unpaused, same.canceled ▸ live,
    Nat.le_zero.mp (unpushed ▸ same.pushed)⟩

/-- If the job of an identifier waits, then for a dependency that is not met. -/
def Settled (id : JobID) (registry : Registry) : Prop :=
  ∀ (job : Nat) object, registry.jobs.lookup id = some job → registry.objects[job]? = some object →
    object.waits = true → allDependenciesMetLocked registry object = false

theorem Settled.quiet (settled : Settled id before) (quiet : Quiet before after) : Settled id after := by
  intro job new found inside waits
  obtain ⟨old, before_, same⟩ := quiet.objects job new inside
  rw [quiet.jobs] at found
  rw [allDependenciesMetLocked, same.options, quiet.status]
  exact settled job old found before_ (same.waits waits)

theorem liveJob_eq_some (found : registry.jobs.lookup id = some job) {object : Job}
    (inside : registry.objects[job]? = some object) (live : object.canceled = false) :
    liveJob registry id = some job := by
  rw [liveJob, found, Option.filter_some, inside, Option.elim_some, live]
  rfl

theorem lookup_of_liveJob (live : liveJob registry id = some job) : registry.jobs.lookup id = some job :=
  (Option.filter_eq_some_iff.mp live).1

/-- The visit of `triggerDependentJobs`. -/
def triggerVisit (job : Nat) (registry : Registry) : Registry :=
  match registry.objects[job]? with
  | none => registry
  | some object =>
    if object.paused then registry
    else if allDependenciesMetLocked registry object then scheduleAt registry job object.runAt
    else registry

theorem settled_triggerVisit (found : registry.jobs.lookup id = some job) :
    Quiet registry (triggerVisit job registry) ∧ Settled id (triggerVisit job registry) := by
  unfold triggerVisit
  cases inside : registry.objects[job]? with
  | none =>
    refine ⟨Quiet.refl registry, fun other object sameId here => ?_⟩
    rw [← Option.some.inj (found.symm.trans sameId), inside] at here
    cases here
  | some object =>
    dsimp only
    have only : ∀ other new, registry.jobs.lookup id = some other →
        registry.objects[other]? = some new → new = object := by
      intro other new sameId here
      rw [← Option.some.inj (found.symm.trans sameId), inside] at here
      exact (Option.some.inj here).symm
    by_cases paused : object.paused = true
    · rw [if_pos paused]
      refine ⟨Quiet.refl registry, fun other new sameId here waits => ?_⟩
      have unpaused := (Job.waits_iff.mp waits).1
      rw [only other new sameId here, paused] at unpaused
      cases unpaused
    · rw [if_neg paused]
      by_cases met : allDependenciesMetLocked registry object = true
      · rw [if_pos met]
        obtain ⟨quiet, pushed⟩ := quiet_scheduleAt registry job object.runAt
        refine ⟨quiet, fun other new sameId here waits => ?_⟩
        rw [quiet.jobs] at sameId
        rw [← Option.some.inj (found.symm.trans sameId)] at here
        exact absurd (Job.waits_iff.mp waits).2.2 (pushed new here).ne'
      · rw [if_neg met]
        refine ⟨Quiet.refl registry, fun other new sameId here _ => ?_⟩
        rw [only other new sameId here]
        exact eq_false_of_ne_true met

/-- No dependent of a job that has succeeded waits without need. -/
theorem settled_triggerDependentJobs (registry : Registry) (completed : JobID) :
    Quiet registry (triggerDependentJobs registry completed) ∧
      ∀ id ∈ registry.dependentsOf completed, Settled id (triggerDependentJobs registry completed) := by
  cases found : registry.dependents.lookup completed with
  | none =>
    rw [triggerDependentJobs, found]
    refine ⟨Quiet.refl registry, fun id member => ?_⟩
    rw [Registry.dependentsOf, found] at member
    cases member
  | some slice =>
    have loop : triggerDependentJobs registry completed =
        (List.range slice.len).foldl (visitPlace slice fun _ => triggerVisit) registry := by
      rw [triggerDependentJobs, found]
      rfl
    have visits : ∀ current id job, liveJob current id = some job →
        Quiet current (triggerVisit job current) ∧ Settled id (triggerVisit job current) :=
      fun _ _ _ live => settled_triggerVisit (lookup_of_liveJob live)
    have dead : ∀ current id, liveJob current id = none → Settled id current := by
      intro current id dead job object found inside waits
      rw [liveJob_eq_some found inside (Job.waits_iff.mp waits).2.1] at dead
      cases dead
    obtain ⟨quiet, settled⟩ := visitPlaces_spec visits dead
      (fun _ _ _ quiet settled => settled.quiet quiet) (List.range slice.len) (Quiet.refl registry)
    rw [loop]
    refine ⟨quiet, fun id member => ?_⟩
    obtain ⟨place, inside, here⟩ := (mem_dependentsOf found).mp member
    exact settled place (List.mem_range.mpr inside) id here

/-- The jobs that a list names all have a property. -/
def Registry.allJobs (registry : Registry) (ids : List JobID) (holds : Job → Bool) : Bool :=
  ids.all fun id => (registry.jobs.lookup id).all fun job => (registry.objects[job]?).all holds

theorem Registry.allJobs_apply {ids : List JobID} {holds : Job → Bool} {object : Job}
    (all : registry.allJobs ids holds = true) (member : id ∈ ids) (found : registry.jobs.lookup id = some job)
    (inside : registry.objects[job]? = some object) : holds object = true := by
  have here := List.all_eq_true.mp all id member
  rwa [found, Option.all_some, inside, Option.all_some] at here

/-- The policies change nothing of who waits for whom, where no dependent is to be canceled. -/
theorem quiet_policies {slice : Slice} {trigger : JobID} {cancelJob : JobID → Nat → Registry → Registry}
    (found : registry.dependents.lookup trigger = some slice)
    (kept : registry.allJobs (registry.dependentsOf trigger)
      (fun object => object.options.dependencyPolicy ≠ .cancel) = true) :
    Quiet registry (forDependents slice (fun id job =>
      applyDependentPolicyLocked cancelJob id job trigger) registry) := by
  refine forDependents_induction slice (Quiet.refl registry) fun {id job current} quiet live place => ?_
  refine quiet.trans ?_
  unfold applyDependentPolicyLocked
  cases inside : current.objects[job]? with
  | none => exact Quiet.refl current
  | some object =>
    obtain ⟨old, started, same⟩ := quiet.objects job object inside
    have looked := lookup_of_liveJob live
    rw [quiet.jobs] at looked
    have member : id ∈ registry.dependentsOf trigger := by
      rw [← quiet.dependentsOf]
      exact (mem_dependentsOf (quiet.dependents ▸ found)).mpr place
    have policy := registry.allJobs_apply kept member looked started
    rw [decide_eq_true_eq, ← same.options] at policy
    dsimp only
    split
    · exact quiet_skipDependentJobLocked current job
    · contradiction
    · split
      · exact (quiet_scheduleAt ..).1
      · exact Quiet.refl current

/-! ## The lists of dependents -/

/-- The slices lie in their arrays, and no two of them in one. -/
structure Arranged (registry : Registry) : Prop where
  inside : ∀ dependency slice, registry.dependents.lookup dependency = some slice →
    slice.array < registry.arrays.length
  apart : ∀ first second slice other, registry.dependents.lookup first = some slice →
    registry.dependents.lookup second = some other → slice.array = other.array → first = second

/-- The registry after steps that keep some dependents of some jobs. -/
structure KeepsLinks (kept : JobID → JobID → Prop) (before after : Registry) : Prop where
  arranged : Arranged after
  jobs : after.jobs = before.jobs
  objects : after.objects = before.objects
  status : after.dependencyStatus = before.dependencyStatus
  links : ∀ dependency other, kept dependency other → other ∈ before.dependentsOf dependency →
    other ∈ after.dependentsOf dependency

theorem KeepsLinks.refl {kept : JobID → JobID → Prop} (arranged : Arranged registry) :
    KeepsLinks kept registry registry :=
  ⟨arranged, rfl, rfl, rfl, fun _ _ _ member => member⟩

theorem KeepsLinks.trans {kept : JobID → JobID → Prop} {first second third : Registry}
    (one : KeepsLinks kept first second) (two : KeepsLinks kept second third) :
    KeepsLinks kept first third :=
  ⟨two.arranged, two.jobs.trans one.jobs, two.objects.trans one.objects, two.status.trans one.status,
    fun dependency other keeps member =>
      two.links dependency other keeps (one.links dependency other keeps member)⟩

/-- One list is changed, in an array that no other list lies in. -/
theorem Arranged.replace (arranged : Arranged registry) {kept : JobID → JobID → Prop}
    {dependency : JobID} {dependents : StringMap Slice} {arrays : List (List JobID)}
    (others : ∀ other, other ≠ dependency → dependents.lookup other = registry.dependents.lookup other)
    (longer : registry.arrays.length ≤ arrays.length)
    (own : ∀ slice, dependents.lookup dependency = some slice → slice.array < arrays.length ∧
      ∀ other old, other ≠ dependency → registry.dependents.lookup other = some old →
        old.array ≠ slice.array)
    (same : ∀ other old, other ≠ dependency → registry.dependents.lookup other = some old →
      arrays[old.array]? = registry.arrays[old.array]?)
    (links : ∀ member, kept dependency member → member ∈ registry.dependentsOf dependency →
      member ∈ { registry with arrays := arrays, dependents := dependents }.dependentsOf dependency) :
    KeepsLinks kept registry { registry with arrays := arrays, dependents := dependents } where
  arranged := by
    constructor
    · intro other slice found
      by_cases isOwn : other = dependency
      · exact (own slice (isOwn ▸ found)).1
      · exact (arranged.inside other slice ((others other isOwn).symm.trans found)).trans_le longer
    · intro first second slice other foundFirst foundSecond sameArray
      by_contra differ
      by_cases isFirst : first = dependency
      · have isSecond : second ≠ dependency := fun isSecond => differ (isFirst.trans isSecond.symm)
        exact (own slice (isFirst ▸ foundFirst)).2 second other isSecond
          ((others second isSecond).symm.trans foundSecond) sameArray.symm
      · have before := (others first isFirst).symm.trans foundFirst
        by_cases isSecond : second = dependency
        · exact (own other (isSecond ▸ foundSecond)).2 first slice isFirst before sameArray
        · exact differ (arranged.apart first second slice other before
            ((others second isSecond).symm.trans foundSecond) sameArray)
  jobs := rfl
  objects := rfl
  status := rfl
  links := fun other member keeps inside => by
    by_cases isOwn : other = dependency
    · exact isOwn ▸ links member (isOwn ▸ keeps) (isOwn ▸ inside)
    · unfold Registry.dependentsOf at inside ⊢
      rw [others other isOwn]
      cases found : registry.dependents.lookup other with
      | none =>
        rw [found] at inside
        cases inside
      | some old =>
        rw [found, Option.elim_some, List.getD_eq_getElem?_getD] at inside
        rw [Option.elim_some, List.getD_eq_getElem?_getD, same other old isOwn found]
        exact inside

theorem appendDependent_spec (arranged : Arranged registry) (id dependency : JobID) :
    KeepsLinks (fun _ _ => True) registry (appendDependent id registry dependency) ∧
      id ∈ (appendDependent id registry dependency).dependentsOf dependency := by
  have appended : (appendDependent id registry dependency).dependentsOf dependency =
      registry.dependentsOf dependency ++ [id] := by
    unfold appendDependent Registry.dependentsOf
    dsimp only
    rw [AList.lookup_insert, Option.elim_some, List.getD_eq_getElem?_getD, List.getElem?_concat_length,
      Option.getD_some, List.take_of_length_le]
    rw [List.length_append, List.length_singleton]
  refine ⟨arranged.replace (fun _ => AList.lookup_insert_ne) ?_ ?_ ?_ ?_, ?_⟩
  · exact List.length_append ▸ Nat.le_add_right _ _
  · intro slice found
    rw [AList.lookup_insert, Option.some.injEq] at found
    rw [← found, List.length_append]
    exact ⟨Nat.lt_succ_self _, fun other old _ before => (arranged.inside other old before).ne⟩
  · exact fun other old _ before => List.getElem?_append_left (arranged.inside other old before)
  · intro member _ inside
    rw [← appendDependent, appended]
    exact List.mem_append_left _ inside
  · rw [appended]
    exact List.mem_append_right _ List.mem_cons_self

/-- A job is entered with each of its dependencies. -/
theorem appendDependents_spec (id : JobID) (dependencies : List JobID) (arranged : Arranged registry) :
    KeepsLinks (fun _ _ => True) registry (dependencies.foldl (appendDependent id) registry) ∧
      ∀ dependency ∈ dependencies,
        id ∈ (dependencies.foldl (appendDependent id) registry).dependentsOf dependency := by
  induction dependencies generalizing registry with
  | nil => exact ⟨KeepsLinks.refl arranged, List.forall_mem_nil _⟩
  | cons dependency dependencies ih =>
    obtain ⟨keeps, entered⟩ := appendDependent_spec arranged id dependency
    obtain ⟨keepsRest, enteredRest⟩ := ih keeps.arranged
    refine ⟨keeps.trans keepsRest, fun other member => ?_⟩
    rcases List.mem_cons.mp member with rfl | behind
    · exact keepsRest.links other id trivial entered
    · exact enteredRest other behind

theorem removeDependent_keeps (arranged : Arranged registry) (id dependency : JobID) :
    KeepsLinks (fun other member => other ≠ id ∧ member ≠ id) registry (removeDependent id registry dependency) := by
  cases found : registry.dependents.lookup dependency with
  | none =>
    rw [removeDependent, found]
    exact KeepsLinks.refl arranged
  | some slice =>
    have listed : registry.dependentsOf dependency = (registry.arrays.getD slice.array []).take slice.len := by
      rw [Registry.dependentsOf, found, Option.elim_some]
    rw [removeDependent, found]
    dsimp only
    rw [← listed]
    generalize filteredEq : (registry.dependentsOf dependency).filter (· ≠ id) = filtered
    generalize dependentsEq : (if filtered = [] then registry.dependents.erase dependency
      else registry.dependents.insert dependency ⟨slice.array, filtered.length⟩) = dependents
    have others : ∀ other, other ≠ dependency →
        dependents.lookup other = registry.dependents.lookup other := by
      intro other differs
      rw [← dependentsEq]
      split
      · exact AList.lookup_erase_ne differs
      · exact AList.lookup_insert_ne differs
    have own : dependents.lookup dependency =
        if filtered = [] then none else some ⟨slice.array, filtered.length⟩ := by
      rw [← dependentsEq]
      split
      · exact AList.lookup_erase ..
      · exact AList.lookup_insert ..
    have within := arranged.inside dependency slice found
    have apart : ∀ other old, other ≠ dependency → registry.dependents.lookup other = some old →
        old.array ≠ slice.array := fun other old differs foundOther sameArray =>
      differs (arranged.apart other dependency old slice foundOther found sameArray)
    refine arranged.replace others (List.length_set ▸ Nat.le_refl _) ?_ ?_ ?_
    · intro left foundLeft
      rw [own, Option.ite_none_left_eq_some, Option.some.injEq] at foundLeft
      rw [← foundLeft.2, List.length_set]
      exact ⟨within, apart⟩
    · exact fun other old differs foundOther =>
        List.getElem?_set_ne (apart other old differs foundOther).symm
    · intro member differs inside
      have remains : member ∈ filtered := by
        rw [← filteredEq]
        exact List.mem_filter.mpr ⟨inside, decide_eq_true differs.2⟩
      unfold Registry.dependentsOf
      rw [own, if_neg (List.ne_nil_of_mem remains), Option.elim_some, List.getD_eq_getElem?_getD,
        List.getElem?_set_self within, Option.getD_some, List.take_left]
      exact remains

theorem removeDependents_keeps (id : JobID) (dependencies : List JobID) (arranged : Arranged registry) :
    KeepsLinks (fun other member => other ≠ id ∧ member ≠ id) registry
      (dependencies.foldl (removeDependent id) registry) := by
  induction dependencies generalizing registry with
  | nil => exact KeepsLinks.refl arranged
  | cons dependency dependencies ih =>
    have keeps := removeDependent_keeps arranged id dependency
    exact keeps.trans (ih keeps.arranged)

/-! ## Jobs that wait -/

/-- Every job that waits has its identifier, and is entered with each of its dependencies. -/
structure Tracked (registry : Registry) : Prop where
  arranged : Arranged registry
  named : ∀ (job : Nat) object, registry.objects[job]? = some object → object.waits = true →
    registry.jobs.lookup object.id = some job
  linked : ∀ (job : Nat) object, registry.objects[job]? = some object → object.waits = true →
    ∀ dependency ∈ object.options.dependencies, object.id ∈ registry.dependentsOf dependency

/-- A job that waits, waits for a dependency that has not succeeded, or has only just. -/
structure Waits (registry : Registry) (completing : List JobID) : Prop where
  tracked : Tracked registry
  recorded : registry.Recorded
  waiting : ∀ (job : Nat) object, registry.objects[job]? = some object → object.waits = true →
    object.options.dependencies ≠ [] → ∃ dependency ∈ object.options.dependencies,
      registry.dependencyStatus.lookup dependency ≠ some true ∨ dependency ∈ completing

variable {completing : List JobID}

/-- The invariant is kept where no job starts to wait. -/
theorem Waits.objects (waits : Waits before completing) (jobs : after.jobs = before.jobs)
    (dependents : after.dependents = before.dependents) (arrays : after.arrays = before.arrays)
    (status : after.dependencyStatus = before.dependencyStatus)
    (recorded : before.Recorded → after.Recorded)
    (objects : ∀ (job : Nat) new, after.objects[job]? = some new → ∃ old, before.objects[job]? = some old ∧
      new.id = old.id ∧ new.options = old.options ∧ (new.waits = true → old.waits = true)) :
    Waits after completing where
  tracked :=
    { arranged := ⟨by rw [dependents, arrays]; exact waits.tracked.arranged.inside,
        by rw [dependents]; exact waits.tracked.arranged.apart⟩
      named := fun job new found waiting => by
        obtain ⟨old, inside, sameId, -, waited⟩ := objects job new found
        rw [jobs, sameId]
        exact waits.tracked.named job old inside (waited waiting)
      linked := fun job new found waiting => by
        obtain ⟨old, inside, sameId, options, waited⟩ := objects job new found
        unfold Registry.dependentsOf
        rw [sameId, options, dependents, arrays]
        exact waits.tracked.linked job old inside (waited waiting) }
  recorded := recorded waits.recorded
  waiting := fun job new found waiting some_ => by
    obtain ⟨old, inside, -, options, waited⟩ := objects job new found
    rw [status, options]
    exact waits.waiting job old inside (waited waiting) (options ▸ some_)

theorem Waits.quiet (waits : Waits before completing) (quiet : Quiet before after) :
    Waits after completing := by
  refine waits.objects quiet.jobs quiet.dependents quiet.arrays quiet.status quiet.recorded
    fun job new found => ?_
  obtain ⟨old, inside, same⟩ := quiet.objects job new found
  exact ⟨old, inside, same.id, same.options, same.waits⟩

theorem Waits.insertStatus (waits : Waits registry completing) (id : JobID) (status : Bool)
    {told : List JobID} (more : completing ⊆ told) (tells : status = true → id ∈ told) :
    Waits { registry with dependencyStatus := registry.dependencyStatus.insert id status } told where
  tracked := ⟨⟨waits.tracked.arranged.inside, waits.tracked.arranged.apart⟩, waits.tracked.named,
    waits.tracked.linked⟩
  recorded := waits.recorded
  waiting := fun job object found waiting some_ => by
    obtain ⟨dependency, member, reason⟩ := waits.waiting job object found waiting some_
    refine ⟨dependency, member, ?_⟩
    rcases reason with unmet | told
    · by_cases same : dependency = id
      · rw [same, AList.lookup_insert]
        cases status with
        | true => exact .inr (tells rfl)
        | false => exact .inl (by decide)
      · rw [AList.lookup_insert_ne same]
        exact .inl unmet
    · exact .inr (more told)

theorem Waits.succeed (waits : Waits registry completing) (job : Nat) :
    Waits (succeedLocked registry job)
      (completing ++ ((registry.objects[job]?).map Job.id).toList) := by
  unfold succeedLocked
  cases registry.objects[job]? with
  | none =>
    rw [Option.map_none, Option.toList_none, List.append_nil]
    exact waits
  | some object =>
    have inserted : ∀ change, (∀ object, SameJob object (change object) ∧
        (change object).scheduleVersion = object.scheduleVersion) → Waits
        { registry.modify job change with
          dependencyStatus := registry.dependencyStatus.insert object.id true }
        (completing ++ [object.id]) := fun _ same =>
      (waits.quiet (quiet_modify same)).insertStatus object.id true (List.subset_append_left _ _)
        fun _ => List.mem_append_right completing List.mem_cons_self
    dsimp only
    split
    · refine Waits.quiet ?_ (quiet_scheduleAt ..).1
      exact inserted _ fun _ => ⟨⟨rfl, rfl, rfl, rfl, Nat.le_refl _⟩, rfl⟩
    · exact inserted _ fun _ => ⟨⟨rfl, rfl, rfl, rfl, Nat.le_refl _⟩, rfl⟩

theorem Waits.trigger (waits : Waits registry completing) {place : Nat} {completed : JobID}
    (found : completing[place]? = some completed) :
    Waits (triggerDependentJobs registry completed) (completing.eraseIdx place) := by
  obtain ⟨quiet, settled⟩ := settled_triggerDependentJobs registry completed
  have after := waits.quiet quiet
  refine ⟨after.tracked, after.recorded, fun job object inside waiting some_ => ?_⟩
  obtain ⟨dependency, member, reason⟩ := after.waiting job object inside waiting some_
  rcases reason with unmet | told
  · exact ⟨dependency, member, .inl unmet⟩
  · by_cases same : dependency = completed
    · -- the job was visited and not pushed, so that another dependency is not met
      have linked := after.tracked.linked job object inside waiting dependency member
      rw [quiet.dependentsOf, same] at linked
      have unmet := settled object.id linked job object (after.tracked.named job object inside waiting)
        inside waiting
      obtain ⟨other, listed, reason⟩ := List.all_eq_false.mp unmet
      exact ⟨other, listed, .inl fun met => reason (decide_eq_true met)⟩
    · refine ⟨dependency, member, .inr ?_⟩
      obtain ⟨inBounds, here⟩ := List.getElem?_eq_some_iff.mp found
      rw [← List.take_append_drop place completing, List.drop_eq_getElem_cons inBounds, here,
        List.mem_append, List.mem_cons] at told
      rw [List.eraseIdx_eq_take_drop_succ, List.mem_append]
      exact told.imp_right fun later => later.resolve_left same

/-- No job that waits has an identifier or depends on it. -/
def Unneeded (id : JobID) (registry : Registry) : Prop :=
  ∀ (place : Nat) object, registry.objects[place]? = some object → object.waits = true →
    object.id ≠ id ∧ id ∉ object.options.dependencies

theorem Unneeded.quiet (unneeded : Unneeded id before) (quiet : Quiet before after) : Unneeded id after := by
  intro place new inside waiting
  obtain ⟨old, started, same⟩ := quiet.objects place new inside
  rw [same.id, same.options]
  exact unneeded place old started (same.waits waiting)

/-- What an identifier leaves behind is cleaned up. -/
theorem Waits.cleanup (waits : Waits registry completing) (unneeded : Unneeded id registry) (job : Nat) :
    Waits (cleanupDependencyTrackingLocked registry id job) completing ∧
      Unneeded id (cleanupDependencyTrackingLocked registry id job) ∧
      ∀ dependency, registry.dependencyStatus.lookup dependency ≠ some true →
        (cleanupDependencyTrackingLocked registry id job).dependencyStatus.lookup dependency ≠
          some true := by
  have recorded : (cleanupDependencyTrackingLocked registry id job).Recorded :=
    (keepsOptions_cleanupDependencyTrackingLocked id).recorded waits.recorded
  revert recorded
  rw [cleanupDependencyTrackingLocked]
  have erased : KeepsLinks (fun other member => other ≠ id ∧ member ≠ id) registry
      { registry with dependents := registry.dependents.erase id } :=
    waits.tracked.arranged.replace (fun _ => AList.lookup_erase_ne) (Nat.le_refl _)
      (fun slice found => by rw [AList.lookup_erase] at found; cases found) (fun _ _ _ _ => rfl)
      fun _ kept => absurd rfl kept.1
  have keeps := erased.trans (removeDependents_keeps id
    ((registry.objects[job]?).elim [] fun object => object.options.dependencies) erased.arranged)
  generalize List.foldl _ _ _ = removed at keeps ⊢
  intro recorded
  have status : ∀ dependency, registry.dependencyStatus.lookup dependency ≠ some true →
      (removed.dependencyStatus.erase id).lookup dependency ≠ some true := by
    intro dependency unmet
    rw [keeps.status]
    by_cases same : dependency = id
    · rw [same, AList.lookup_erase]
      exact (Option.some_ne_none true).symm
    · rw [AList.lookup_erase_ne same]
      exact unmet
  have before_ : ∀ {place : Nat} {object : Job}, removed.objects[place]? = some object →
      registry.objects[place]? = some object := fun inside => keeps.objects ▸ inside
  refine ⟨⟨⟨⟨keeps.arranged.inside, keeps.arranged.apart⟩, ?_, ?_⟩, recorded, ?_⟩, ?_, status⟩
  · intro place object inside waiting
    change removed.jobs.lookup object.id = some place
    rw [keeps.jobs]
    exact waits.tracked.named place object (before_ inside) waiting
  · intro place object inside waiting dependency member
    obtain ⟨other, independent⟩ := unneeded place object (before_ inside) waiting
    exact keeps.links dependency object.id ⟨fun same => independent (same ▸ member), other⟩
      (waits.tracked.linked place object (before_ inside) waiting dependency member)
  · intro place object inside waiting some_
    obtain ⟨dependency, member, reason⟩ := waits.waiting place object (before_ inside) waiting some_
    exact ⟨dependency, member, reason.imp_left (status dependency)⟩
  · exact fun place object inside => unneeded place object (before_ inside)

/-- A job is taken out, that none that waits depends on. -/
theorem Waits.mark (waits : Waits registry completing) (mark : Job → Job)
    (marks : ∀ object, (mark object).id = object.id ∧ (mark object).options = object.options ∧
      (mark object).scheduleVersion = object.scheduleVersion ∧ (mark object).canceled = true)
    (own : registry.jobs.lookup id = some job ∨ registry.allJobs [id] (!·.waits) = true)
    (told : registry.allJobs (registry.dependentsOf id) (!·.waits) = true) :
    Waits (registry.modify job mark) completing ∧ Unneeded id (registry.modify job mark) := by
  have waited : ∀ (place : Nat) new, (registry.modify job mark).objects[place]? = some new → ∃ old,
      registry.objects[place]? = some old ∧ new.id = old.id ∧ new.options = old.options ∧
        (new.waits = true → old.waits = true ∧ job ≠ place) := by
    intro place new inside
    obtain ⟨old, started, rfl⟩ := objects_modify inside
    refine ⟨old, started, ?_⟩
    split
    · obtain ⟨sameId, options, -, canceled⟩ := marks old
      refine ⟨sameId, options, fun waiting => ?_⟩
      exact absurd (canceled.symm.trans (Job.waits_iff.mp waiting).2.1) (by decide)
    · rename_i differ
      exact ⟨rfl, rfl, fun waiting => ⟨waiting, differ⟩⟩
  constructor
  · have keeps : KeepsOptions registry (registry.modify job mark) :=
      keepsOptions_modify fun object => ⟨(marks object).2.1, (marks object).2.2.1⟩
    refine waits.objects rfl rfl rfl rfl keeps.recorded fun place new inside => ?_
    obtain ⟨old, started, sameId, options, waited⟩ := waited place new inside
    exact ⟨old, started, sameId, options, fun waiting => (waited waiting).1⟩
  · intro place new inside waiting
    obtain ⟨old, started, sameId, options, waited⟩ := waited place new inside
    obtain ⟨waiting, differ⟩ := waited waiting
    have named := waits.tracked.named place old started waiting
    have idle : ∀ ids, registry.allJobs ids (!·.waits) = true → old.id ∉ ids := by
      intro ids all member
      have unneeded := registry.allJobs_apply all member named started
      rw [waiting] at unneeded
      cases unneeded
    rw [sameId, options]
    constructor
    · rintro rfl
      rcases own with isOwn | none_
      · exact differ (Option.some.inj (isOwn.symm.trans named))
      · exact idle _ none_ List.mem_cons_self
    · exact fun member => idle _ told (waits.tracked.linked place old started waiting id member)

/-- Nothing that waits or would be canceled depends on a job. -/
def removable (registry : Registry) (id : JobID) : Bool :=
  registry.allJobs (registry.dependentsOf id) (!·.waits) &&
    registry.allJobs (registry.dependentsOf id) fun object => object.options.dependencyPolicy ≠ .cancel

theorem Waits.cancelJob (waits : Waits registry completing) (found : registry.jobs.lookup id = some job)
    (free : removable registry id = true) :
    Waits (cancelJob id job registry) completing ∧ Unneeded id (cancelJob id job registry) ∧
      ∀ dependency, registry.dependencyStatus.lookup dependency ≠ some true →
        (Jobs.cancelJob id job registry).dependencyStatus.lookup dependency ≠ some true := by
  obtain ⟨told, kept⟩ := (Bool.and_eq_true _ _).mp free
  rw [Jobs.cancelJob, cancelJobLocked]
  generalize markEq : (fun object : Job => setJobStateLocked .canceled { object with canceled := true }) = mark
  have marks : ∀ object, (mark object).id = object.id ∧ (mark object).options = object.options ∧
      (mark object).scheduleVersion = object.scheduleVersion ∧ (mark object).canceled = true := by
    rw [← markEq]
    exact fun _ => ⟨rfl, rfl, rfl, rfl⟩
  obtain ⟨marked, unneeded⟩ := waits.mark mark marks (.inl found) told
  have keptMarked : (registry.modify job mark).allJobs ((registry.modify job mark).dependentsOf id)
      (fun object => object.options.dependencyPolicy ≠ .cancel) = true := by
    refine List.all_eq_true.mpr fun other member => ?_
    have here := List.all_eq_true.mp kept other member
    change ((registry.jobs.lookup other).all fun place =>
      ((registry.modify job mark).objects[place]?).all _) = true
    cases looked : registry.jobs.lookup other with
    | none => rfl
    | some place =>
      cases inside : (registry.modify job mark).objects[place]? with
      | none => rw [Option.all_some, inside, Option.all_none]
      | some new =>
        obtain ⟨old, started, rfl⟩ := objects_modify inside
        rw [looked, Option.all_some, started, Option.all_some] at here
        rw [Option.all_some, inside, Option.all_some, apply_ite Job.options, (marks old).2.1, ite_self]
        exact here
  cases slice : (registry.modify job mark).dependents.lookup id with
  | none => exact marked.cleanup unneeded job
  | some slice_ =>
    have quiet : Quiet (registry.modify job mark) (forDependents slice_ (fun dependent dependentJob =>
        applyDependentPolicyLocked (cancelJobLocked registry.objects.length) dependent dependentJob id)
        (registry.modify job mark)) := quiet_policies slice keptMarked
    obtain ⟨cleaned, free, status⟩ := (marked.quiet quiet).cleanup (unneeded.quiet quiet) job
    refine ⟨cleaned, free, fun dependency unmet => status dependency ?_⟩
    rw [quiet.status]
    exact unmet

theorem Waits.pause (waits : Waits registry completing) (job : Nat) :
    Waits (registry.modify job fun object => { object with paused := true }) completing := by
  have keeps : KeepsOptions registry (registry.modify job fun object => { object with paused := true }) :=
    keepsOptions_modify fun _ => ⟨rfl, rfl⟩
  refine waits.objects rfl rfl rfl rfl keeps.recorded fun place new inside => ?_
  obtain ⟨old, started, rfl⟩ := objects_modify inside
  refine ⟨old, started, ?_⟩
  split
  · exact ⟨rfl, rfl, fun waiting => by cases (Job.waits_iff.mp waiting).1⟩
  · exact ⟨rfl, rfl, fun waiting => waiting⟩

theorem Waits.resume (waits : Waits registry completing) (job : Nat) :
    Waits (resumeJobLocked registry job) completing := by
  obtain ⟨quiet, pushed⟩ := resumeJobLocked_spec registry job
  have unpaused : KeepsOptions registry
      (registry.modify job fun object => { object with paused := false }) :=
    keepsOptions_modify fun _ => ⟨rfl, rfl⟩
  refine waits.objects quiet.jobs quiet.dependents quiet.arrays quiet.status
    (fun recorded => quiet.recorded (unpaused.recorded recorded)) fun place new inside => ?_
  obtain ⟨middle, between, same⟩ := quiet.objects place new inside
  obtain ⟨old, started, rfl⟩ := objects_modify between
  refine ⟨old, started, ?_⟩
  split at same
  · rename_i resumed
    have positive := pushed new (resumed ▸ inside)
    exact ⟨same.id, same.options, fun waiting => absurd (Job.waits_iff.mp waiting).2.2 positive.ne'⟩
  · exact ⟨same.id, same.options, same.waits⟩

/-- A new job takes its identifier. -/
theorem Waits.insert (waits : Waits registry completing) {object : Job} (isNew : object.scheduleVersion = 0)
    (fresh : ∀ (place : Nat) old, registry.objects[place]? = some old → old.waits = true →
      old.id ≠ object.id)
    (unmet : object.paused = false → object.options.dependencies ≠ [] →
      ∃ dependency ∈ object.options.dependencies, registry.dependencyStatus.lookup dependency ≠ some true) :
    Waits (object.options.dependencies.foldl (appendDependent object.id) (insertJob registry object))
      completing := by
  have arranged : Arranged (insertJob registry object) :=
    ⟨waits.tracked.arranged.inside, waits.tracked.arranged.apart⟩
  obtain ⟨keeps, entered⟩ := appendDependents_spec object.id object.options.dependencies arranged
  have objects : ∀ (place : Nat) new, (insertJob registry object).objects[place]? = some new →
      registry.objects[place]? = some new ∨ place = registry.objects.length ∧ new = object := by
    intro place new inside
    rw [insertJob, List.getElem?_append] at inside
    split at inside
    · exact .inl inside
    · rename_i beyond
      obtain ⟨only, rfl⟩ := List.getElem?_eq_some_iff.mp inside
      rw [List.length_singleton] at only
      exact .inr ⟨by omega, List.getElem_singleton _⟩
  have recorded : (insertJob registry object).Recorded := by
    intro place new inside positive
    rcases objects place new inside with old | ⟨-, rfl⟩
    · exact waits.recorded place new old positive
    · exact absurd isNew positive.ne'
  have recordedAll := (keepsOptions_appendDependents object.id object.options.dependencies _).recorded recorded
  generalize List.foldl _ _ _ = linked at keeps entered recordedAll ⊢
  refine ⟨⟨keeps.arranged, ?_, ?_⟩, recordedAll, ?_⟩
  · intro place new inside waiting
    rw [keeps.jobs, insertJob]
    rcases objects place new (keeps.objects ▸ inside) with old | ⟨rfl, rfl⟩
    · rw [AList.lookup_insert_ne (fresh place new old waiting)]
      exact waits.tracked.named place new old waiting
    · exact AList.lookup_insert _
  · intro place new inside waiting dependency member
    rcases objects place new (keeps.objects ▸ inside) with old | ⟨rfl, rfl⟩
    · exact keeps.links dependency new.id trivial
        (waits.tracked.linked place new old waiting dependency member)
    · exact entered dependency member
  · intro place new inside waiting some_
    rw [keeps.status]
    rcases objects place new (keeps.objects ▸ inside) with old | ⟨rfl, rfl⟩
    · exact waits.waiting place new old waiting some_
    · obtain ⟨dependency, member, reason⟩ := unmet (Job.waits_iff.mp waiting).1 some_
      exact ⟨dependency, member, .inl reason⟩

theorem Waits.register (waits : Waits registry completing) {object : Job} (isNew : object.scheduleVersion = 0)
    (free : registry.jobs.lookup object.id = none ∨ removable registry object.id = true)
    (unmet : object.paused = false → object.options.dependencies ≠ [] →
      ∃ dependency ∈ object.options.dependencies, registry.dependencyStatus.lookup dependency ≠ some true) :
    Waits (register registry object) completing := by
  have inserted : Waits (object.options.dependencies.foldl (appendDependent object.id)
      (insertJob (cancelExisting registry object.id) object)) completing := by
    unfold cancelExisting
    cases found : registry.jobs.lookup object.id with
    | none =>
      refine waits.insert isNew (fun place old inside waiting same => ?_) unmet
      have named := waits.tracked.named place old inside waiting
      rw [same, found] at named
      cases named
    | some existing =>
      have free := free.resolve_left (by rw [found]; exact Option.some_ne_none _)
      obtain ⟨canceled, unneeded, status⟩ := waits.cancelJob found free
      refine canceled.insert isNew (fun place old inside waiting => (unneeded place old inside waiting).1)
        fun unpaused some_ => ?_
      obtain ⟨dependency, member, reason⟩ := unmet unpaused some_
      exact ⟨dependency, member, status dependency reason⟩
  unfold Jobs.register
  dsimp only
  split
  · exact inserted.quiet (quiet_pushScheduleLocked ..).1
  · exact inserted

/-- A job is registered before the last of its dependencies has succeeded. None is replaced, canceled or
retired that another one waits for, or canceled because of a dependency. The identifier of a job that is
retired does not belong to another one that waits. -/
def regular (progress : Progress) : Act → Bool
  | .call (.addJob id kind runAt options) =>
    match (addJob progress.registry id kind runAt options).2 with
    | .error _ => true
    | .ok name => ((progress.registry.jobs.lookup name).isNone || removable progress.registry name) &&
        (options.paused || options.dependencies.isEmpty ||
          options.dependencies.any fun dependency =>
            progress.registry.dependencyStatus.lookup dependency ≠ some true)
  | .call (.cancel id) => removable progress.registry id
  | .retire job => (progress.registry.objects[job]?).all fun object =>
    progress.registry.allJobs (progress.registry.dependentsOf object.id) (!·.waits) &&
      (progress.registry.jobs.lookup object.id = some job ||
        progress.registry.allJobs [object.id] (!·.waits))
  | .notifyFailure place => (progress.failing[place]?).all fun failed =>
    progress.registry.allJobs (progress.registry.dependentsOf failed) fun object =>
      object.options.dependencyPolicy ≠ .cancel
  | _ => true

theorem Waits.call {progress : Progress} (waits : Waits progress.registry completing) (op : Call)
    (isRegular : regular progress (.call op) = true) : Waits (call progress.registry op) completing := by
  cases op with
  | tick elapsed => exact waits.quiet ⟨⟨rfl, rfl, rfl, fun recorded => recorded⟩, rfl, rfl, rfl,
      (Quiet.refl progress.registry).objects⟩
  | addJob id kind runAt options =>
    rw [Jobs.call]
    rw [regular] at isRegular
    rcases addJob_cases progress.registry id kind runAt options with ⟨_, refused⟩ | ⟨name, -, -, registered⟩
    · rw [refused]
      exact waits
    · rw [registered] at isRegular ⊢
      rw [Bool.and_eq_true, Bool.or_eq_true, Option.isNone_iff_eq_none] at isRegular
      refine waits.register rfl isRegular.1 fun unpaused (some_ : options.dependencies ≠ []) => ?_
      have unmet := isRegular.2
      rw [show options.paused = false from unpaused, List.isEmpty_eq_false_iff.mpr some_, Bool.or_self,
        Bool.false_or, List.any_eq_true] at unmet
      obtain ⟨dependency, member, reason⟩ := unmet
      exact ⟨dependency, member, of_decide_eq_true reason⟩
  | cancel id =>
    rw [Jobs.call, cancel]
    cases found : progress.registry.jobs.lookup id with
    | none => exact waits
    | some job => exact (waits.cancelJob found isRegular).1
  | pause id =>
    rw [Jobs.call, Jobs.pause]
    split
    · exact waits
    · exact waits.pause _
  | resume id =>
    rw [Jobs.call, Jobs.resume]
    split
    · exact waits
    · split
      · exact waits.resume _
      · exact waits

theorem Waits.act {progress : Progress} (waits : Waits progress.registry progress.completing) {op : Act}
    (isRegular : regular progress op = true) :
    Waits (act progress op).registry (act progress op).completing := by
  cases op with
  | call op => exact waits.call op isRegular
  | succeed job => exact waits.succeed job
  | reschedule job base delay => exact waits.quiet (quiet_scheduleNext ..)
  | trigger place =>
    rw [Jobs.act]
    cases found : progress.completing[place]? with
    | none => exact waits
    | some completed => exact waits.trigger found
  | retire job =>
    rw [Jobs.act]
    rw [regular] at isRegular
    cases found : progress.registry.objects[job]? with
    | none => exact waits
    | some object =>
      rw [found, Option.all_some, Bool.and_eq_true, Bool.or_eq_true, decide_eq_true_eq] at isRegular
      obtain ⟨marked, unneeded⟩ := waits.mark (fun object => { object with canceled := true })
        (fun _ => ⟨rfl, rfl, rfl, rfl⟩) isRegular.2 isRegular.1
      exact (marked.cleanup unneeded job).1
  | pop place => exact waits.quiet ⟨⟨rfl, rfl, rfl, fun recorded => recorded⟩, rfl, rfl, rfl,
      (Quiet.refl progress.registry).objects⟩
  | setRunning job running | setPending job | setState job state =>
    exact waits.quiet (quiet_modify fun _ => ⟨⟨rfl, rfl, rfl, rfl, Nat.le_refl _⟩, rfl⟩)
  | countAttempt job =>
    refine waits.quiet (quiet_modify fun object => ?_)
    split
    · exact ⟨⟨rfl, rfl, rfl, rfl, Nat.le_refl _⟩, rfl⟩
    · exact ⟨SameJob.refl object, rfl⟩
  | retry job runAt => exact waits.quiet (quiet_push ..).1
  | fail job =>
    rw [Jobs.act]
    cases progress.registry.objects[job]? with
    | none => exact waits
    | some object => exact waits.insertStatus object.id false (List.Subset.refl _) Bool.noConfusion
  | notifyFailure place =>
    rw [Jobs.act]
    rw [regular] at isRegular
    cases found : progress.failing[place]? with
    | none => exact waits
    | some failed =>
      rw [found, Option.all_some] at isRegular
      dsimp only
      unfold handleDependentJobsOnFailure
      split
      · exact waits
      · rename_i slice
        exact waits.quiet (quiet_policies slice isRegular)

/-- The scheduler before its first job. -/
def newProgress (clock : Time) : Progress := ⟨newRegistry clock, [], []⟩

theorem waits_newRegistry (clock : Time) : Waits (newRegistry clock) [] where
  tracked :=
    { arranged := ⟨fun _ _ found => (by cases found), fun _ _ _ _ found => (by cases found)⟩
      named := fun _ _ found => by cases found
      linked := fun _ _ found => by cases found }
  recorded := fun _ _ found => by cases found
  waiting := fun _ _ found => by cases found

/-- Where the registrations and removals are regular, every job that is not paused and not canceled,
and whose dependencies have all succeeded and told their dependents, has been pushed. -/
theorem met_job_pushed (clock : Time) (ops : List Act) (progress : Progress)
    (meets : progressMachine.Meets (fun progress op => regular progress op = true) (newProgress clock) ops)
    (reached : progressMachine.Reaches (newProgress clock) ops progress) (told : progress.completing = [])
    (job : Nat) (object : Job)
    (inside : progress.registry.objects[job]? = some object) (unpaused : object.paused = false)
    (live : object.canceled = false) (waited : object.options.dependencies ≠ [])
    (met : ∀ dependency ∈ object.options.dependencies,
      progress.registry.dependencyStatus.lookup dependency = some true) :
    ∃ item ∈ progress.registry.pushed, item.job = job := by
  have steps : ∀ state op next out, Waits state.registry state.completing → regular state op = true →
      progressMachine.step state op = some (next, out) → Waits next.registry next.completing := by
    intro state op next out waits isRegular stepped
    cases stepped
    exact waits.act isRegular
  have initial : Waits (newProgress clock).registry (newProgress clock).completing := waits_newRegistry clock
  have waits : Waits progress.registry progress.completing :=
    Machine.reaches_invariant steps initial meets reached
  rcases Nat.eq_zero_or_pos object.scheduleVersion with unpushed | pushed
  · obtain ⟨dependency, member, reason⟩ := waits.waiting job object inside
      (Job.waits_iff.mpr ⟨unpaused, live, unpushed⟩) waited
    rcases reason with unmet | late
    · exact absurd (met dependency member) unmet
    · rw [told] at late
      cases late
  · obtain ⟨item, member, isItem, -⟩ := waits.recorded job object inside pushed
    exact ⟨item, member, isItem⟩

/-- A job that others wait for, and one that waits for it. -/
def extract : JobID := ascii "extract"

def report : JobID := ascii "report"

def addExtract : Act := .call (.addJob extract .delay 0 defaultJobOptions)

def addReport : Act :=
  .call (.addJob report .delay 0 { defaultJobOptions with dependencies := [extract] })

/-- What can be seen of the waiting job, and the jobs whose items were pushed. -/
def reportSeen (progress : Progress) : Option (Job × Option Bool × List JobID × List Nat) :=
  (progress.registry.objects[1]?).map fun object =>
    (object, progress.registry.dependencyStatus.lookup extract, progress.completing,
      progress.registry.pushed.map ScheduleItem.job)

/-- The waiting job after a number of pushes. -/
def reportJob (scheduleVersion : Nat) (state : JobState) : Job :=
  { newJob 0 report .delay 0 { defaultJobOptions with dependencies := [extract] } with
    scheduleVersion := scheduleVersion
    state := state }

theorem met_job_pushed_report :
    ∃ progress, progressMachine.run (newProgress 0) [addExtract, addReport, .succeed 0, .trigger 0] =
        some progress ∧
      reportSeen progress = some (reportJob 1 .scheduled, some true, [], [0, 1]) ∧
      ∃ item ∈ progress.registry.pushed, item.job = 1 := by
  have ran : (progressMachine.run (newProgress 0) [addExtract, addReport, .succeed 0, .trigger 0]).bind
      reportSeen = some (reportJob 1 .scheduled, some true, [], [0, 1]) := by decide +kernel
  obtain ⟨progress, ranEq, seen⟩ := Option.bind_eq_some_iff.mp ran
  refine ⟨progress, ranEq, seen, ?_⟩
  obtain ⟨object, inside, same⟩ := Option.map_eq_some_iff.mp seen
  obtain ⟨rfl, rest⟩ := Prod.mk.inj same
  obtain ⟨status, rest⟩ := Prod.mk.inj rest
  refine met_job_pushed 0 [addExtract, addReport, .succeed 0, .trigger 0] progress (by decide +kernel)
    ⟨_, List.prefix_rfl, ranEq⟩ (Prod.mk.inj rest).1 1 _ inside rfl rfl (by decide)
    fun dependency member => ?_
  rw [show dependency = extract from List.mem_singleton.mp member]
  exact status

/-- A job that is registered after its dependency has succeeded is never pushed: the only item is the
one of the dependency. -/
theorem late_job_not_pushed :
    (progressMachine.run (newProgress 0) [addExtract, .succeed 0, .trigger 0, addReport]).bind reportSeen =
      some (reportJob 0 .queued, some true, [], [0]) := by
  decide +kernel

end Plumego.Scheduler.Jobs
