/-
Module: Plumego.Proofs.SerialCatchUp
Purpose: The catch-up run of a `SerialQueue` job: where it is between a dispatch that found the job
  running and the next execution, as long as executions that a dispatch waits for succeed and two
  races do not occur.
Trusted boundary: none
Main exports: Undisturbed, Orderly, Orderly.step, catch_up
-/
import Plumego.Scheduler.SerialQueue

namespace Plumego.Scheduler.Serial

open Plumego.Lib

variable {config : SerialConfig} {job next : SerialJob}

/-- An execution has cleared the flag `running` and is not done with the job. -/
def Phase.inTail : Phase → Bool
  | .released _ | .rescheduling => true
  | _ => false

/-- An execution that a dispatch has found running succeeds and is not the last one that the options
allow, no dispatch falls between the end of an execution and its last section, and no execution takes
the flag `pending` away between a dispatch's look at the job and its store. -/
def Undisturbed (config : SerialConfig) (job : SerialJob) : SerialOp → Prop
  | .compareAndSwap => ∀ phase ∈ job.executions, phase.inTail = false
  | .finish _ succeeded => job.owed = true → succeeded = true
  | .settle _ => job.dispatcher ≠ .refused ∧ (job.owed = true → maxRunsReached config job = false)
  | _ => True

instance decidableUndisturbed (config : SerialConfig) (job : SerialJob) (op : SerialOp) :
    Decidable (Undisturbed config job op) := by
  cases op <;> dsimp only [Undisturbed] <;> infer_instance

/-- The states of such a run: at most one execution at a time, and where the catch-up run is that is
owed. -/
inductive Orderly (job : SerialJob) : Prop where
  | idle (vacant : job.executions = []) (free : job.running = false) (settled : job.pending = false)
      (looks : job.dispatcher ≠ .refused)
      (owed : job.owed = true → job.item = some .now ∨ job.dispatcher = .begun)
  | busy (phase : Phase) (one : job.executions = [phase]) (busy : phase.inTail = false)
      (held : job.running = true) (owed : job.owed = true ↔ job.pending = true ∨ job.dispatcher = .refused)
  | released (succeeded : Bool) (one : job.executions = [.released succeeded]) (free : job.running = false)
      (owed : job.owed = true ↔ job.pending = true ∨ job.dispatcher = .refused)
      (success : job.owed = true → succeeded = true)
  | rescheduling (one : job.executions = [.rescheduling]) (free : job.running = false)
      (settled : job.pending = false) (looks : job.dispatcher ≠ .refused) (paid : job.owed = false)

theorem orderly_added : Orderly added :=
  .idle rfl rfl rfl Dispatcher.noConfusion Bool.noConfusion

/-- The run loop takes an item. -/
theorem Orderly.begin (orderly : Orderly job) (waiting : job.dispatcher = .idle) (triggered : Nat)
    (item : Option Due) :
    Orderly { job with dispatcher := .begun, triggered := triggered, item := item } := by
  have pending : (job.owed = true ↔ job.pending = true ∨ job.dispatcher = .refused) →
      (job.owed = true ↔ job.pending = true ∨ Dispatcher.begun = .refused) := by
    simp [waiting]
  cases orderly with
  | idle vacant free settled looks owed =>
    exact .idle vacant free settled Dispatcher.noConfusion fun _ => .inr rfl
  | busy phase one busy held owed => exact .busy phase one busy held (pending owed)
  | released succeeded one free owed success => exact .released succeeded one free (pending owed) success
  | rescheduling one free settled looks paid =>
    exact .rescheduling one free settled Dispatcher.noConfusion paid

theorem Orderly.triggerNow (orderly : Orderly job) : Orderly (triggerNow config job) := by
  have due : ∀ triggered item, item = job.item ∨ item = some .now →
      Orderly { job with triggered := triggered, item := item } := by
    intro triggered item kept
    cases orderly with
    | idle vacant free settled looks owed =>
      refine .idle vacant free settled looks fun isOwed => ?_
      rcases kept with rfl | rfl
      · exact owed isOwed
      · exact .inl rfl
    | busy phase one busy held owed => exact .busy phase one busy held owed
    | released succeeded one free owed success => exact .released succeeded one free owed success
    | rescheduling one free settled looks paid => exact .rescheduling one free settled looks paid
  unfold Serial.triggerNow
  cases config.kind with
  | cron => exact due _ _ (.inl rfl)
  | delay => exact due _ _ (.inr rfl)

theorem Orderly.compareAndSwap (orderly : Orderly job)
    (noTail : ∀ phase ∈ job.executions, phase.inTail = false) : Orderly (compareAndSwap job) := by
  unfold Serial.compareAndSwap
  cases orderly with
  | idle vacant free settled looks owed =>
    rw [free, if_neg Bool.false_ne_true]
    refine .busy .queued (by rw [vacant]; rfl) rfl rfl ?_
    simp [settled]
  | busy phase one busy held owed =>
    rw [held, if_pos rfl]
    exact .busy phase one busy rfl (iff_of_true rfl (.inr rfl))
  | released succeeded one =>
    have tail := noTail (.released succeeded) (by rw [one]; exact List.mem_singleton_self _)
    cases tail
  | rescheduling one free settled looks paid =>
    have tail := noTail .rescheduling (by rw [one]; exact List.mem_singleton_self _)
    cases tail

theorem Orderly.storePending (orderly : Orderly job) (refused : job.dispatcher = .refused) :
    Orderly { job with dispatcher := .idle, pending := true } := by
  cases orderly with
  | idle vacant free settled looks owed => exact absurd refused looks
  | busy phase one busy held owed =>
    exact .busy phase one busy held (iff_of_true (owed.mpr (.inr refused)) (.inl rfl))
  | released succeeded one free owed success =>
    exact .released succeeded one free (iff_of_true (owed.mpr (.inr refused)) (.inl rfl)) success
  | rescheduling one free settled looks paid => exact absurd refused looks

theorem eq_of_getElem?_singleton {phase found : Phase} {index : Nat}
    (inside : [phase][index]? = some found) : index = 0 ∧ found = phase := by
  cases index with
  | zero => exact ⟨rfl, (Option.some.inj inside).symm⟩
  | succ index => cases inside

/-- The only execution, found by its place. -/
theorem Orderly.only (orderly : Orderly job) {index : Nat} {found : Phase}
    (inside : job.executions[index]? = some found) : index = 0 ∧ job.executions = [found] := by
  have one : ∀ phase, job.executions = [phase] → index = 0 ∧ job.executions = [found] := by
    intro phase only
    rw [only] at inside ⊢
    obtain ⟨first, same⟩ := eq_of_getElem?_singleton inside
    exact ⟨first, by rw [same]⟩
  cases orderly with
  | idle vacant =>
    rw [vacant] at inside
    cases inside
  | busy phase only => exact one phase only
  | released _ only => exact one _ only
  | rescheduling only => exact one _ only

theorem Orderly.start (orderly : Orderly job) {index : Nat}
    (queued : job.executions[index]? = some .queued) :
    Orderly { job with executions := job.executions.set index .executing } := by
  obtain ⟨rfl, only⟩ := orderly.only queued
  have changed : job.executions.set 0 .executing = [.executing] := by rw [only]; rfl
  cases orderly with
  | busy phase one busy held owed => exact .busy .executing changed rfl held owed
  | _ => simp_all

theorem Orderly.finish (orderly : Orderly job) {index : Nat} {succeeded : Bool}
    (executing : job.executions[index]? = some .executing) (success : job.owed = true → succeeded = true) :
    Orderly { job with
      running := false
      executions := job.executions.set index (.released succeeded) } := by
  obtain ⟨rfl, only⟩ := orderly.only executing
  have changed : job.executions.set 0 (.released succeeded) = [.released succeeded] := by rw [only]; rfl
  cases orderly with
  | busy phase one busy held owed => exact .released succeeded changed rfl owed success
  | _ => simp_all

/-- The last section of an execution turns the flag into an item that is due at once. -/
theorem Orderly.settleSuccess (orderly : Orderly job) {index : Nat}
    (released : job.executions[index]? = some (.released true)) (looks : job.dispatcher ≠ .refused)
    (more : job.owed = true → maxRunsReached config job = false) :
    Orderly (settleSuccess config job index) := by
  obtain ⟨rfl, only⟩ := orderly.only released
  have gone : job.executions.eraseIdx 0 = [] := by rw [only]; rfl
  have changed : job.executions.set 0 .rescheduling = [.rescheduling] := by rw [only]; rfl
  cases orderly with
  | released succeeded one free owed success =>
    unfold Serial.settleSuccess
    dsimp only
    rw [free]
    cases pending : job.pending with
    | true =>
      rw [more (owed.mpr (.inl pending))]
      refine .idle ?_ rfl rfl looks fun _ => .inl rfl
      dsimp only
      rw [if_neg (fun both => Bool.false_ne_true both.2.1)]
      exact gone
    | false =>
      have paid : job.owed = false := by
        rw [Bool.eq_false_iff, ne_eq, owed, pending]
        exact fun due => due.elim Bool.false_ne_true looks
      split
      · exact .rescheduling changed rfl rfl looks paid
      · exact .idle gone rfl rfl looks fun isOwed => absurd (paid.symm.trans isOwed) Bool.false_ne_true
  | _ => simp_all [Phase.inTail]

/-- A failure that no dispatch waits for loses nothing. -/
theorem Orderly.handleFailure (orderly : Orderly job) {index : Nat}
    (released : job.executions[index]? = some (.released false)) :
    Orderly (handleFailure config job index) := by
  obtain ⟨rfl, only⟩ := orderly.only released
  have gone : job.executions.eraseIdx 0 = [] := by rw [only]; rfl
  have changed : job.executions.set 0 .rescheduling = [.rescheduling] := by rw [only]; rfl
  cases orderly with
  | released succeeded one free owed success =>
    have paid : job.owed = false := by
      rw [Bool.eq_false_iff]
      intro isOwed
      rw [success isOwed, only] at one
      cases one
    have idle : ¬ (job.pending = true ∨ job.dispatcher = .refused) := by
      rw [← owed, paid]
      exact Bool.false_ne_true
    obtain ⟨settled, looks⟩ := not_or.mp idle
    rw [Bool.not_eq_true] at settled
    have unowed : ∀ {due : Prop}, job.owed = true → due :=
      fun isOwed => absurd (paid.symm.trans isOwed) Bool.false_ne_true
    unfold Serial.handleFailure
    split
    · split
      · exact .rescheduling changed free settled looks paid
      · exact .idle gone free settled looks unowed
    · exact .idle gone free settled looks unowed
  | _ => simp_all [Phase.inTail]

theorem Orderly.reschedule (orderly : Orderly job) {index : Nat}
    (rescheduling : job.executions[index]? = some .rescheduling) :
    Orderly { job with item := some .later, executions := job.executions.eraseIdx index } := by
  obtain ⟨rfl, only⟩ := orderly.only rescheduling
  have gone : job.executions.eraseIdx 0 = [] := by rw [only]; rfl
  cases orderly with
  | rescheduling one free settled looks paid =>
    refine .idle gone free settled looks fun isOwed => ?_
    rw [paid] at isOwed
    cases isOwed
  | _ => simp_all [Phase.inTail]

theorem Orderly.step (orderly : Orderly job) {op : SerialOp} (undisturbed : Undisturbed config job op)
    (stepped : serialStep config job op = some next) : Orderly next := by
  cases op with
  | triggerNow =>
    cases stepped
    exact orderly.triggerNow
  | popTriggered =>
    obtain ⟨turn, same⟩ := Option.ite_none_right_eq_some.mp stepped
    cases same
    exact orderly.begin turn.1 _ job.item
  | popItem =>
    obtain ⟨turn, same⟩ := Option.ite_none_right_eq_some.mp stepped
    cases same
    exact orderly.begin turn.1 job.triggered none
  | compareAndSwap =>
    obtain ⟨-, same⟩ := Option.ite_none_right_eq_some.mp stepped
    cases same
    exact orderly.compareAndSwap undisturbed
  | storePending =>
    obtain ⟨turn, same⟩ := Option.ite_none_right_eq_some.mp stepped
    cases same
    exact orderly.storePending turn
  | start index =>
    obtain ⟨turn, same⟩ := Option.ite_none_right_eq_some.mp stepped
    cases same
    exact orderly.start turn
  | finish index succeeded =>
    obtain ⟨turn, same⟩ := Option.ite_none_right_eq_some.mp stepped
    cases same
    exact orderly.finish turn undisturbed
  | settle index =>
    rw [serialStep] at stepped
    split at stepped
    · rename_i turn
      cases stepped
      exact orderly.settleSuccess turn undisturbed.1 undisturbed.2
    · split at stepped
      · rename_i turn
        cases stepped
        exact orderly.handleFailure turn
      · cases stepped
  | reschedule index =>
    obtain ⟨turn, same⟩ := Option.ite_none_right_eq_some.mp stepped
    cases same
    exact orderly.reschedule turn

/-- The steps that lead from a due item to an execution. -/
def catchUpSteps (job : SerialJob) : List SerialOp :=
  if job.dispatcher = .begun then [.compareAndSwap, .start 0] else [.popItem, .compareAndSwap, .start 0]

/-- A dispatch that has begun starts an execution of a job that is free. -/
theorem run_begun (begun : job.dispatcher = .begun) (free : job.running = false)
    (empty : job.executions = []) :
    (serialMachine config).run job [.compareAndSwap, .start 0] = some
      { job with running := true, dispatcher := .idle, executions := [.executing], owed := false } := by
  simp [Machine.run, serialMachine, serialStep, compareAndSwap, begun, free, empty]

/-- For every job and every run whose steps are undisturbed: whenever there is no execution and no
request, the flag `pending` is false; and if a dispatch had found the job running and no request
was made since, an item of the job is due at once or the run loop has taken one, and it starts an
execution without another trigger. -/
theorem catch_up (config : SerialConfig) (ops : List SerialOp) (job : SerialJob)
    (undisturbed : (serialMachine config).Meets (Undisturbed config) added ops)
    (reached : (serialMachine config).Reaches added ops job) (ended : job.executions = []) :
    job.pending = false ∧
      (job.owed = true → (job.item = some .now ∨ job.dispatcher = .begun) ∧
        ∃ started, (serialMachine config).run job (catchUpSteps job) = some started ∧
          started.executions = [.executing]) := by
  have orderly : Orderly job := by
    refine Machine.reaches_invariant ?_ orderly_added undisturbed reached
    intro before op after out orderly met stepEq
    obtain ⟨found, stepped, same⟩ := Option.map_eq_some_iff.mp stepEq
    cases same
    exact orderly.step met stepped
  cases orderly with
  | idle empty free settled looks owed =>
    refine ⟨settled, fun isOwed => ⟨owed isOwed, ?_⟩⟩
    unfold catchUpSteps
    by_cases begun : job.dispatcher = .begun
    · rw [if_pos begun]
      exact ⟨_, run_begun begun free empty, rfl⟩
    · rw [if_neg begun]
      have due := (owed isOwed).resolve_right begun
      have waiting : job.dispatcher = .idle := by
        cases stands : job.dispatcher with
        | idle => rfl
        | begun => exact absurd stands begun
        | refused => exact absurd stands looks
      have popped : serialStep config job .popItem =
          some { job with dispatcher := .begun, item := none } :=
        if_pos ⟨waiting, by rw [due]; rfl⟩
      refine ⟨{ job with
        running := true, dispatcher := .idle, executions := [.executing], item := none
        owed := false }, ?_, rfl⟩
      rw [Machine.run_cons, serialMachine]
      dsimp only
      rw [popped, Option.map_some, Option.bind_some]
      exact @run_begun config { job with dispatcher := .begun, item := none } rfl free empty
  | busy phase one | released succeeded one | rescheduling one =>
    rw [one] at ended
    cases ended

/-- A delayed job that is not tried again. -/
def onceOnly : SerialConfig where
  kind := .delay
  maxRuns := 0
  maxAttempts := 1
  retriesAtOnce := false

/-- A first execution is under way, and a dispatch finds the job running. -/
def foundRunning : List SerialOp :=
  [.popItem, .compareAndSwap, .start 0, .triggerNow, .popItem, .compareAndSwap]

theorem catch_up_once :
    ∃ job, (serialMachine onceOnly).run added (foundRunning ++ [.storePending, .finish 0 true, .settle 0]) =
        some job ∧
      job.owed = true ∧ job.pending = false ∧ (job.item = some .now ∨ job.dispatcher = .begun) ∧
        ∃ started, (serialMachine onceOnly).run job (catchUpSteps job) = some started ∧
          started.executions = [.executing] := by
  have ran : ((serialMachine onceOnly).run added
      (foundRunning ++ [.storePending, .finish 0 true, .settle 0])).map
      (fun job => (job.owed, job.executions)) = some (true, []) := by decide
  obtain ⟨job, ranEq, same⟩ := Option.map_eq_some_iff.mp ran
  obtain ⟨owed, none⟩ := Prod.mk.inj same
  obtain ⟨settled, starts⟩ := catch_up onceOnly _ job (by decide) ⟨_, List.prefix_rfl, ranEq⟩ none
  exact ⟨job, ranEq, owed, settled, starts owed⟩

/-- The job with its flag set and nothing that would look at it. -/
def stranded (runCount : Int) : SerialJob where
  running := false
  pending := true
  dispatcher := .idle
  executions := []
  triggered := 0
  item := none
  nextAttempt := 1
  runCount := runCount
  owed := true

/-- The catch-up run is lost where the execution fails; and where it succeeds but takes the flag before
the dispatch has set it. -/
theorem catch_up_lost :
    (serialMachine onceOnly).run added (foundRunning ++ [.storePending, .finish 0 false, .settle 0]) =
        some (stranded 0) ∧
      (serialMachine onceOnly).run added (foundRunning ++ [.finish 0 true, .settle 0, .storePending]) =
        some (stranded 1) := by
  decide

end Plumego.Scheduler.Serial
