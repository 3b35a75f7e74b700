/-
Module: Plumego.Proofs.CancelCascade
Purpose: The cascade of `Cancel` reaches no job that is not to be canceled, whoever depends on whom.
Trusted boundary: as for the jobs
Main exports: Spares, cancelJobLocked_spares, cancel_reasons, cancel_spares
-/
import Plumego.Proofs.DependencyGraph

namespace Plumego.Scheduler.Jobs

open Plumego.Go Plumego.Lib

variable {registry before after : Registry} {id : JobID} {job : Nat}

/-- The registry after some jobs were canceled: nothing else of a job that decides about it has changed,
and a job was only canceled if it was to be. -/
def Spares (target : Nat → Prop) (before after : Registry) : Prop :=
  ∀ (place : Nat) new, after.objects[place]? = some new → ∃ old, before.objects[place]? = some old ∧
    new.options = old.options ∧ (old.canceled = true → new.canceled = true) ∧
    (new.canceled = true →
      old.canceled = true ∨ target place ∨ old.options.dependencyPolicy = .cancel)

theorem Spares.trans {target : Nat → Prop} {first second third : Registry} (one : Spares target first second)
    (two : Spares target second third) : Spares target first third := by
  intro place new found
  obtain ⟨middle, between, sameLater, keptLater, laterReason⟩ := two place new found
  obtain ⟨old, started, same, kept, reason⟩ := one place middle between
  refine ⟨old, started, sameLater.trans same, fun canceled => keptLater (kept canceled), fun canceled => ?_⟩
  rcases laterReason canceled with already | isTarget | policy
  · exact reason already
  · exact .inr (.inl isTarget)
  · exact .inr (.inr (same ▸ policy))

theorem spares_of_objects {target : Nat → Prop} (same : after.objects = before.objects) :
    Spares target before after :=
  fun _ new found => ⟨new, same ▸ found, rfl, id, .inl⟩

theorem Quiet.spares {target : Nat → Prop} (quiet : Quiet before after) : Spares target before after := by
  intro place new found
  obtain ⟨old, started, same⟩ := quiet.objects place new found
  exact ⟨old, started, same.options, fun canceled => same.canceled ▸ canceled,
    fun canceled => .inl (same.canceled ▸ canceled)⟩

theorem cleanup_objects (registry : Registry) (id : JobID) (job : Nat) :
    (cleanupDependencyTrackingLocked registry id job).objects = registry.objects := by
  unfold cleanupDependencyTrackingLocked
  dsimp only
  refine List.foldlRecOn _ _ (motive := fun current : Registry => current.objects = registry.objects) rfl ?_
  intro current same dependency _
  unfold removeDependent
  split
  · exact same
  · exact same

theorem spares_policy {cancelJob : JobID → Nat → Registry → Registry} {target : Nat → Prop}
    (cancels : ∀ id job registry, Spares (· = job) registry (cancelJob id job registry)) (trigger : JobID) :
    Spares target registry (applyDependentPolicyLocked cancelJob id job trigger registry) := by
  unfold applyDependentPolicyLocked
  cases found : registry.objects[job]? with
  | none => exact spares_of_objects rfl
  | some object =>
    dsimp only
    split
    · exact (quiet_skipDependentJobLocked registry job).spares
    · rename_i policy
      -- the job that is canceled here is one that is to be
      intro place new inside
      obtain ⟨old, started, same, kept, reason⟩ := cancels id job registry place new inside
      refine ⟨old, started, same, kept, fun canceled => ?_⟩
      rcases reason canceled with already | rfl | other
      · exact .inl already
      · rw [found, Option.some.injEq] at started
        exact .inr (.inr (started ▸ policy))
      · exact .inr (.inr other)
    · split
      · exact (quiet_scheduleAt ..).1.spares
      · exact spares_of_objects rfl

/-- The registry where a job is marked as canceled. -/
def marked (registry : Registry) (job : Nat) : Registry :=
  registry.modify job fun object => setJobStateLocked .canceled { object with canceled := true }

theorem marked_spares (registry : Registry) (job : Nat) : Spares (· = job) registry (marked registry job) := by
  intro place new found
  obtain ⟨old, started, rfl⟩ := objects_modify found
  refine ⟨old, started, ?_⟩
  split
  · rename_i same
    exact ⟨rfl, fun _ => rfl, fun _ => .inr (.inl same.symm)⟩
  · exact ⟨rfl, fun canceled => canceled, .inl⟩

/-- What follows the mark is up to the policies of the dependents. -/
theorem spares_of_marked {depth : Nat} (target : Nat → Prop)
    (cancels : ∀ id job registry, Spares (· = job) registry (cancelJobLocked depth id job registry))
    (id : JobID) (job : Nat) (registry : Registry) :
    Spares target (marked registry job) (cancelJobLocked (depth + 1) id job registry) := by
  unfold cancelJobLocked
  refine Spares.trans ?_ (spares_of_objects (cleanup_objects _ id job))
  split
  · exact spares_of_objects rfl
  · exact forDependents_induction _ (spares_of_objects rfl) fun spares _ _ =>
      spares.trans (spares_policy cancels id)

theorem cancelJobLocked_spares (depth : Nat) (id : JobID) (job : Nat) (registry : Registry) :
    Spares (· = job) registry (cancelJobLocked depth id job registry) := by
  induction depth generalizing id job registry with
  | zero => exact spares_of_objects rfl
  | succ depth ih =>
    exact (marked_spares registry job).trans (spares_of_marked _ ih id job registry)

theorem cancel_marks (found : registry.jobs.lookup id = some job) {new : Job}
    (inside : (cancel registry id).1.objects[job]? = some new) : new.canceled = true := by
  rw [cancel, found] at inside
  obtain ⟨old, started, -, kept, -⟩ := spares_of_marked (· = job)
    (cancelJobLocked_spares _) id job registry job new inside
  obtain ⟨older, -, rfl⟩ := objects_modify started
  exact kept (by rw [if_pos rfl]; rfl)

theorem cancel_reasons (registry : Registry) (id : JobID) :
    Spares (fun place => registry.jobs.lookup id = some place) registry (cancel registry id).1 := by
  unfold cancel
  cases registry.jobs.lookup id with
  | none => exact spares_of_objects rfl
  | some job =>
    have target : (fun place => some job = some place) = (· = job) := by
      funext place
      exact propext (Option.some_inj.trans eq_comm)
    rw [target]
    exact cancelJobLocked_spares _ id job registry

/-- `Cancel` loses no job: each one is still there under its identifier and with its options. It is
canceled afterwards if it was before or is the one of the identifier, and any other job is only
canceled if its policy says so. -/
theorem cancel_spares (registry : Registry) (id : JobID) (place : Nat) (old : Job)
    (found : registry.objects[place]? = some old) :
    (cancel registry id).1.jobs = registry.jobs ∧
    ∃ new, (cancel registry id).1.objects[place]? = some new ∧ new.options = old.options ∧
      (old.canceled = true ∨ registry.jobs.lookup id = some place → new.canceled = true) ∧
      (new.canceled = true → old.canceled = true ∨ registry.jobs.lookup id = some place ∨
        old.options.dependencyPolicy = .cancel) := by
  have keeps : KeepsOptions registry (cancel registry id).1 := keepsOptions_cancel id
  have options := congrArg (·[place]?) keeps.options
  simp only [List.getElem?_map, found, Option.map_some] at options
  obtain ⟨new, inside, same⟩ := Option.map_eq_some_iff.mp options
  obtain ⟨older, started, -, kept, reason⟩ := cancel_reasons registry id place new inside
  rw [found, Option.some.injEq] at started
  subst started
  refine ⟨keeps.jobs, new, inside, same, fun canceled => ?_, reason⟩
  rcases canceled with already | isJob
  · exact kept already
  · exact cancel_marks isJob inside

/-- One job with two dependents, of which one is to be canceled with it. -/
def cascading : Registry :=
  let first := call (newRegistry 0) (.addJob (ascii "a") .delay 0 defaultJobOptions)
  let second := call first (.addJob (ascii "b") .delay 0
    { defaultJobOptions with dependencies := [ascii "a"], dependencyPolicy := .cancel })
  call second (.addJob (ascii "c") .delay 0 { defaultJobOptions with dependencies := [ascii "a"] })

theorem cancel_spares_cascading :
    ((cancel cascading (ascii "a")).1.objects.map Job.canceled = [true, true, false]) ∧
    ∃ old new, cascading.objects[2]? = some old ∧
      (cancel cascading (ascii "a")).1.objects[2]? = some new ∧ new.options = old.options := by
  refine ⟨by decide +kernel, ?_⟩
  have there : (cascading.objects[2]?).isSome = true := by decide +kernel
  obtain ⟨old, found⟩ := Option.isSome_iff_exists.mp there
  obtain ⟨-, new, inside, same, -⟩ := cancel_spares cascading (ascii "a") 2 old found
  exact ⟨old, new, found, inside, same⟩

end Plumego.Scheduler.Jobs
