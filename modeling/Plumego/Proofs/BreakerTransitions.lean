/-
Module: Plumego.Proofs.BreakerTransitions
Purpose: Everything that one step of the circuit breaker can do, and how its state changes while calls
  overlap: which changes the package documents, and that in a run in which no call acts on an
  outdated reading there are no others.
Trusted boundary: none
Main exports: Moves, step_moves, Change.Documented, Faithful, Faithful.step, documented_of_current
-/
import Plumego.Lib.Counting
import Plumego.Resilience.CircuitBreaker

namespace Plumego.Resilience

open Plumego.Go Plumego.Lib

/-- The phases in which a call counts for the closed state. -/
def Phase.bookkeeping : Phase → Bool
  | .addRequests _ | .addFailures | .addSuccesses | .loadRequests | .countRequests
  | .countSuccesses _ | .countFailures _ _ | .countHalfOpenSuccesses _ _ _ | .setOpen => true
  | _ => false

/-- The phases in which a call has nothing left to do for the half-open state. -/
def Phase.apart : Phase → Bool
  | .setHalfOpen | .addHalfOpenRequests _ | .reopen | .addHalfOpenSuccesses
  | .loadHalfOpenSuccesses | .setClosed => false
  | _ => true

/-- Two breakers that differ at most in the counters of the closed state. -/
structure SameHalfOpen (before after : CircuitBreaker) : Prop where
  state : after.state = before.state
  stateChanged : after.stateChanged = before.stateChanged
  requests : after.halfOpenRequests = before.halfOpenRequests
  successes : after.halfOpenSuccesses = before.halfOpenSuccesses

theorem SameHalfOpen.refl (breaker : CircuitBreaker) : SameHalfOpen breaker breaker :=
  ⟨rfl, rfl, rfl, rfl⟩

/-- What one step can do. -/
inductive Moves (config : Config) (system : System) : Op → System → Prop where
  | tick (elapsed : Nat) :
      Moves config system (.tick elapsed) { system with clock := system.clock + elapsed }
  | begins : Moves config system .call system.begin
  | resets : Moves config system .reset (system.setState .stateClosed)
  | trips : Moves config system .trip (system.setState .stateOpen)
  | goesOn {place : Nat} {call : Call} {phase : Phase} {breaker : CircuitBreaker}
      (found : system.calls[place]? = some call) (source : call.phase.bookkeeping = true)
      (target : phase.bookkeeping = true) (same : SameHalfOpen system.breaker breaker) :
      Moves config system (.advance place)
        ({ system with breaker := breaker }.proceed place { call with phase := phase })
  | leaves {op : Op} {place : Nat} {call : Call} {breaker : CircuitBreaker}
      (found : system.calls[place]? = some call) (source : call.phase.apart = true)
      (same : SameHalfOpen system.breaker breaker) :
      Moves config system op ({ system with breaker := breaker }.leave place)
  | waited {place : Nat} {call : Call} (found : system.calls[place]? = some call)
      (source : call.phase = .readElapsed)
      (elapsed : config.timeout ≤ timeSub system.clock system.breaker.stateChanged) :
      Moves config system (.advance place)
        (system.proceed place { call with phase := .setHalfOpen })
  | halfOpens {place : Nat} {call : Call} (found : system.calls[place]? = some call)
      (source : call.phase = .setHalfOpen) :
      Moves config system (.advance place)
        ((system.setState .stateHalfOpen).admitted place call)
  | admits {place : Nat} {call : Call} (found : system.calls[place]? = some call)
      (source : call.phase = .loadHalfOpenRequests)
      (below : system.breaker.halfOpenRequests < config.maxRequests) :
      Moves config system (.advance place) (system.admitted place call)
  | succeeds {place : Nat} {call : Call} (found : system.calls[place]? = some call)
      (source : call.phase = .executing) :
      Moves config system (.finish place .success)
        ({ system with succeeded := system.succeeded ++ [call.entered] }.proceed place
          { call with phase := .loadState false })
  | fails {place : Nat} {call : Call} (found : system.calls[place]? = some call)
      (source : call.phase = .executing) :
      Moves config system (.finish place .failure)
        (system.proceed place { call with phase := .loadState true })
  | readsClosed {place : Nat} {call : Call} {failed : Bool}
      (found : system.calls[place]? = some call) (source : call.phase = .loadState failed) :
      Moves config system (.advance place)
        (system.proceed place { call with phase := .addRequests failed, seen := system.epoch })
  | readsHalfOpen {place : Nat} {call : Call} {failed : Bool}
      (found : system.calls[place]? = some call) (source : call.phase = .loadState failed)
      (state : system.breaker.state = .stateHalfOpen) :
      Moves config system (.advance place)
        (system.proceed place
          { call with phase := .addHalfOpenRequests failed, seen := system.epoch })
  | counts {place : Nat} {call : Call} {failed : Bool}
      (found : system.calls[place]? = some call)
      (source : call.phase = .addHalfOpenRequests failed) :
      Moves config system (.advance place)
        ({ system with
            breaker := { system.breaker with
              halfOpenRequests := system.breaker.halfOpenRequests + 1 } }.proceed place
          { call with phase := if failed then .reopen else .addHalfOpenSuccesses })
  | opens {place : Nat} {call : Call} (found : system.calls[place]? = some call) :
      Moves config system (.advance place) ((system.setState .stateOpen).leave place)
  | credits {place : Nat} {call : Call} (found : system.calls[place]? = some call)
      (source : call.phase = .addHalfOpenSuccesses) :
      Moves config system (.advance place)
        ({ system with
            breaker := { system.breaker with
              halfOpenSuccesses := system.breaker.halfOpenSuccesses + 1 } }.proceed place
          { call with phase := .loadHalfOpenSuccesses })
  | staysHalfOpen {place : Nat} {call : Call} (found : system.calls[place]? = some call)
      (source : call.phase = .loadHalfOpenSuccesses)
      (below : system.breaker.halfOpenSuccesses < config.successThreshold) :
      Moves config system (.advance place) (system.leave place)
  | fills {place : Nat} {call : Call} (found : system.calls[place]? = some call)
      (source : call.phase = .loadHalfOpenSuccesses)
      (enough : config.successThreshold ≤ system.breaker.halfOpenSuccesses) :
      Moves config system (.advance place) (system.proceed place { call with phase := .setClosed })
  | closes {place : Nat} {call : Call} (found : system.calls[place]? = some call)
      (source : call.phase = .setClosed) :
      Moves config system (.advance place) ((system.setState .stateClosed).leave place)

section Steps

variable {config : Config} {system next : System} {op : Op} {out : Output}

theorem advance_moves {place : Nat} {call : Call} (found : system.calls[place]? = some call)
    (advanced : advance config system place call = some (next, out)) :
    Moves config system (.advance place) next := by
  have same := SameHalfOpen.refl system.breaker
  cases phaseEq : call.phase with
  | executing => simp [advance, phaseEq] at advanced
  | readElapsed =>
    simp only [advance, phaseEq] at advanced
    split at advanced <;> obtain ⟨rfl, rfl⟩ := by simpa using advanced
    · exact .waited found phaseEq (by assumption)
    · exact .leaves found (by simp [Phase.apart, phaseEq]) same
  | setHalfOpen =>
    obtain ⟨rfl, rfl⟩ := by simpa [advance, phaseEq] using advanced
    exact .halfOpens found phaseEq
  | loadHalfOpenRequests =>
    simp only [advance, phaseEq] at advanced
    split at advanced <;> obtain ⟨rfl, rfl⟩ := by simpa using advanced
    · exact .leaves found (by simp [Phase.apart, phaseEq]) same
    · exact .admits found phaseEq (by omega)
  | loadState failed =>
    simp only [advance, phaseEq] at advanced
    split at advanced <;> obtain ⟨rfl, rfl⟩ := by simpa using advanced
    · exact .readsClosed found phaseEq
    · exact .leaves found (by simp [Phase.apart, phaseEq]) same
    · exact .readsHalfOpen found phaseEq (by assumption)
  | addRequests failed =>
    obtain ⟨rfl, rfl⟩ := by simpa [advance, phaseEq] using advanced
    refine .goesOn found (by simp [Phase.bookkeeping, phaseEq]) ?_ ⟨rfl, rfl, rfl, rfl⟩
    cases failed <;> rfl
  | addFailures =>
    obtain ⟨rfl, rfl⟩ := by simpa [advance, phaseEq] using advanced
    exact .goesOn found (by simp [Phase.bookkeeping, phaseEq]) rfl ⟨rfl, rfl, rfl, rfl⟩
  | addSuccesses =>
    obtain ⟨rfl, rfl⟩ := by simpa [advance, phaseEq] using advanced
    exact .leaves found (by simp [Phase.apart, phaseEq]) ⟨rfl, rfl, rfl, rfl⟩
  | loadRequests =>
    simp only [advance, phaseEq] at advanced
    split at advanced <;> obtain ⟨rfl, rfl⟩ := by simpa using advanced
    · exact .leaves found (by simp [Phase.apart, phaseEq]) same
    · exact .goesOn found (by simp [Phase.bookkeeping, phaseEq]) rfl same
  | countRequests | countSuccesses requests | countFailures requests successes =>
    obtain ⟨rfl, rfl⟩ := by simpa [advance, phaseEq] using advanced
    exact .goesOn found (by simp [Phase.bookkeeping, phaseEq]) rfl same
  | countHalfOpenSuccesses requests successes failures =>
    simp only [advance, phaseEq] at advanced
    split at advanced <;> obtain ⟨rfl, rfl⟩ := by simpa using advanced
    · exact .goesOn found (by simp [Phase.bookkeeping, phaseEq]) rfl same
    · exact .leaves found (by simp [Phase.apart, phaseEq]) same
  | setOpen =>
    obtain ⟨rfl, rfl⟩ := by simpa [advance, phaseEq] using advanced
    exact .opens found
  | addHalfOpenRequests failed =>
    obtain ⟨rfl, rfl⟩ := by simpa [advance, phaseEq] using advanced
    exact .counts found phaseEq
  | reopen =>
    obtain ⟨rfl, rfl⟩ := by simpa [advance, phaseEq] using advanced
    exact .opens found
  | addHalfOpenSuccesses =>
    obtain ⟨rfl, rfl⟩ := by simpa [advance, phaseEq] using advanced
    exact .credits found phaseEq
  | loadHalfOpenSuccesses =>
    simp only [advance, phaseEq] at advanced
    split at advanced <;> obtain ⟨rfl, rfl⟩ := by simpa using advanced
    · exact .fills found phaseEq (by assumption)
    · exact .staysHalfOpen found phaseEq (by omega)
  | setClosed =>
    obtain ⟨rfl, rfl⟩ := by simpa [advance, phaseEq] using advanced
    exact .closes found phaseEq

theorem finish_moves {place : Nat} {call : Call} {outcome : Outcome}
    (found : system.calls[place]? = some call)
    (finished : finish system place call outcome = some (next, out)) :
    Moves config system (.finish place outcome) next := by
  unfold finish at finished
  split at finished
  · obtain ⟨rfl, rfl⟩ := by simpa using finished
    exact .succeeds found (by assumption)
  · obtain ⟨rfl, rfl⟩ := by simpa using finished
    exact .fails found (by assumption)
  · rename_i phaseEq
    obtain ⟨rfl, rfl⟩ := by simpa using finished
    exact .leaves found (by simp [Phase.apart, phaseEq]) (.refl _)
  · cases finished

/-- Every step is one of the moves. -/
theorem step_moves (stepEq : (machine config).step system op = some (next, out)) :
    Moves config system op next := by
  cases op with
  | tick elapsed =>
    obtain ⟨rfl, rfl⟩ := by simpa [machine, step] using stepEq
    exact .tick elapsed
  | call =>
    obtain ⟨rfl, rfl⟩ := by simpa [machine, step] using stepEq
    exact .begins
  | advance place =>
    obtain ⟨call, found, advanced⟩ := Option.bind_eq_some_iff.mp stepEq
    exact advance_moves found advanced
  | finish place outcome =>
    obtain ⟨call, found, finished⟩ := Option.bind_eq_some_iff.mp stepEq
    exact finish_moves found finished
  | reset =>
    obtain ⟨rfl, rfl⟩ := by simpa [machine, step] using stepEq
    exact .resets
  | trip =>
    obtain ⟨rfl, rfl⟩ := by simpa [machine, step] using stepEq
    exact .trips

/-! ## What `setState` leaves behind -/

variable {newState : State}

theorem setState_same (same : system.breaker.state = newState) :
    system.setState newState = system := if_pos same

@[simp] theorem calls_setState : (system.setState newState).calls = system.calls := by
  unfold System.setState
  split <;> rfl

@[simp] theorem clock_setState : (system.setState newState).clock = system.clock := by
  unfold System.setState
  split <;> rfl

@[simp] theorem succeeded_setState :
    (system.setState newState).succeeded = system.succeeded := by
  unfold System.setState
  split <;> rfl

/-- Afterwards the breaker is in the new state, whether or not it was before. -/
@[simp] theorem state_setState : (system.setState newState).breaker.state = newState := by
  unfold System.setState
  split
  · assumption
  · rename_i changes
    cases newState <;> simp [CircuitBreaker.setState, changes]

/-- A change to half-open starts both half-open counters again. -/
theorem halfOpen_setState (changes : system.breaker.state ≠ .stateHalfOpen) :
    (system.setState .stateHalfOpen).breaker.halfOpenRequests = 0 ∧
      (system.setState .stateHalfOpen).breaker.halfOpenSuccesses = 0 := by
  simp [System.setState, CircuitBreaker.setState, changes]

theorem epoch_setState (changes : system.breaker.state ≠ newState) :
    (system.setState newState).epoch = system.epoch + 1 := by
  simp [System.setState, System.epoch, changes]

/-- A call takes a number of steps in a row. -/
def advances (count place : Nat) : List Op := List.replicate count (.advance place)

end Steps

/-! ## Changes of the state -/

/-- The state transitions of the package documentation: from open to half-open after the timeout,
from half-open to closed after enough calls of the half-open state have succeeded. -/
def Change.Documented (config : Config) (change : Change) : Prop :=
  match change.source, change.target with
  | .stateClosed, .stateOpen => True
  | .stateOpen, .stateHalfOpen => config.timeout ≤ change.sinceOpened
  | .stateHalfOpen, .stateClosed => config.successThreshold ≤ change.successes
  | .stateHalfOpen, .stateOpen => True
  | _, _ => False

/-- A call makes the breaker half-open or closed only if the state has not changed since it read
it, and a success counts only for the half-open state that let its call through. -/
def current (system : System) : Op → Bool
  | .advance place => system.calls[place]?.all fun call =>
    match call.phase with
    | .setHalfOpen =>
      decide (system.breaker.state = .stateHalfOpen) || call.seen == system.epoch
    | .setClosed => decide (system.breaker.state = .stateClosed) || call.seen == system.epoch
    | .addHalfOpenSuccesses =>
      decide (system.breaker.state ≠ .stateHalfOpen) || call.entered == system.epoch
    | _ => true
  | _ => true

/-- What a call knows of a breaker whose state has not changed since the call read it. -/
def Call.Agrees (config : Config) (system : System) (call : Call) : Prop :=
  match call.phase with
  | .readElapsed => system.breaker.state = .stateOpen
  | .setHalfOpen => system.breaker.state = .stateOpen ∧
      config.timeout ≤ system.clock - system.breaker.stateChanged
  | .addHalfOpenRequests _ | .reopen | .addHalfOpenSuccesses | .loadHalfOpenSuccesses =>
    system.breaker.state = .stateHalfOpen
  | .setClosed => system.breaker.state = .stateHalfOpen ∧
      config.successThreshold ≤ system.breaker.halfOpenSuccesses
  | _ => True

/-- A call of the given half-open state that has succeeded and not been credited. -/
def Call.pending (epoch : Nat) (call : Call) : Bool :=
  call.entered == epoch &&
    match call.phase with
    | .loadState false | .addHalfOpenRequests false | .addHalfOpenSuccesses => true
    | _ => false

/-- What holds in a run without outdated readings. -/
structure Faithful (config : Config) (system : System) : Prop where
  documented : ∀ change ∈ system.changes, change.Documented config
  opened : system.breaker.state = .stateOpen → system.openedAt = system.breaker.stateChanged
  past : system.breaker.stateChanged ≤ system.clock
  seen : ∀ call ∈ system.calls, call.seen ≤ system.epoch ∧ call.entered ≤ system.epoch
  agrees : ∀ call ∈ system.calls, call.seen = system.epoch → call.Agrees config system
  credited : system.breaker.state = .stateHalfOpen → system.breaker.halfOpenSuccesses +
    system.calls.countP (Call.pending system.epoch) ≤ system.succeeded.count system.epoch

variable {config : Config} {system next : System} {op : Op}

theorem faithful_new (clock : Time) : Faithful config (new clock) where
  documented := nofun
  opened := nofun
  past := Int.le_refl _
  seen := nofun
  agrees := nofun
  credited := nofun

/-- What a call knows stays true while time passes and successes are added. -/
theorem Call.Agrees.mono {call : Call} {later : System} (agrees : call.Agrees config system)
    (state : later.breaker.state = system.breaker.state)
    (changed : later.breaker.stateChanged = system.breaker.stateChanged)
    (clock : system.clock ≤ later.clock)
    (successes : system.breaker.halfOpenSuccesses ≤ later.breaker.halfOpenSuccesses) :
    call.Agrees config later := by
  unfold Call.Agrees at agrees ⊢
  rw [state, changed]
  split at agrees
  · exact agrees
  · exact ⟨agrees.1, agrees.2.trans (Int.sub_le_sub_right clock _)⟩
  · exact agrees
  · exact agrees
  · exact agrees
  · exact agrees
  · exact ⟨agrees.1, agrees.2.trans successes⟩
  · trivial

/-- A call goes on while the state stays as it is. A success that it adds to the counter is one
that it had not been credited with. -/
theorem Faithful.proceed (faithful : Faithful config system) {place : Nat} {call after : Call}
    {breaker : CircuitBreaker} {succeeded : List Nat} (found : system.calls[place]? = some call)
    (state : breaker.state = system.breaker.state)
    (changed : breaker.stateChanged = system.breaker.stateChanged)
    (successes : system.breaker.halfOpenSuccesses ≤ breaker.halfOpenSuccesses)
    (seen : after.seen ≤ system.epoch ∧ after.entered ≤ system.epoch)
    (agrees : after.seen = system.epoch → after.Agrees config { system with breaker := breaker })
    (balance : system.breaker.state = .stateHalfOpen →
      breaker.halfOpenSuccesses + (if after.pending system.epoch then 1 else 0) +
          system.succeeded.count system.epoch ≤
        system.breaker.halfOpenSuccesses + (if call.pending system.epoch then 1 else 0) +
          succeeded.count system.epoch) :
    Faithful config
      ({ system with breaker := breaker, succeeded := succeeded }.proceed place after) where
  documented := faithful.documented
  opened := fun isOpen => (faithful.opened (state ▸ isOpen)).trans changed.symm
  past := changed ▸ faithful.past
  seen := fun other member => by
    rcases List.mem_or_eq_of_mem_set member with old | rfl
    · exact faithful.seen other old
    · exact seen
  agrees := fun other member unchanged => by
    rcases List.mem_or_eq_of_mem_set member with old | rfl
    · exact (faithful.agrees other old unchanged).mono state changed (Int.le_refl _) successes
    · exact (agrees unchanged).mono rfl rfl (Int.le_refl _) (Nat.le_refl _)
  credited := fun halfOpen => by
    have before := faithful.credited (state ▸ halfOpen)
    have counts := countP_set (Call.pending system.epoch) found after
    have balanced := balance (state ▸ halfOpen)
    show breaker.halfOpenSuccesses +
      (system.calls.set place after).countP (Call.pending system.epoch) ≤
        succeeded.count system.epoch
    omega

/-- A call goes on without a part in the half-open state. -/
theorem Faithful.passes (faithful : Faithful config system) {place : Nat} {call : Call}
    {phase : Phase} {breaker : CircuitBreaker} (found : system.calls[place]? = some call)
    (same : SameHalfOpen system.breaker breaker)
    (agrees : call.seen = system.epoch →
      { call with phase := phase }.Agrees config { system with breaker := breaker })
    (pending : { call with phase := phase }.pending system.epoch = true →
      call.pending system.epoch = true) :
    Faithful config
      ({ system with breaker := breaker }.proceed place { call with phase := phase }) := by
  have seen := faithful.seen call (List.mem_of_getElem? found)
  refine faithful.proceed found same.state same.stateChanged
    (Nat.le_of_eq same.successes.symm) seen agrees fun _ => ?_
  rw [same.successes]
  by_cases isPending : { call with phase := phase }.pending system.epoch = true
  · rw [if_pos isPending, if_pos (pending isPending)]
  · rw [if_neg isPending]
    omega

/-- A call is let through. -/
theorem Faithful.admitted (faithful : Faithful config system) {place : Nat} {call : Call}
    (found : system.calls[place]? = some call) :
    Faithful config (system.admitted place call) := by
  have seen := faithful.seen call (List.mem_of_getElem? found)
  refine faithful.proceed found rfl rfl (Nat.le_refl _) ⟨seen.1, Nat.le_refl _⟩
    (fun _ => trivial) fun _ => ?_
  simp [Call.pending]

theorem Faithful.leave (faithful : Faithful config system) {place : Nat}
    {breaker : CircuitBreaker} (same : SameHalfOpen system.breaker breaker) :
    Faithful config ({ system with breaker := breaker }.leave place) where
  documented := faithful.documented
  opened := fun isOpen => (faithful.opened (same.state ▸ isOpen)).trans same.stateChanged.symm
  past := same.stateChanged ▸ faithful.past
  seen := fun call member => faithful.seen call (List.mem_of_mem_eraseIdx member)
  agrees := fun call member unchanged =>
    (faithful.agrees call (List.mem_of_mem_eraseIdx member) unchanged).mono same.state
      same.stateChanged (Int.le_refl _) (Nat.le_of_eq same.successes.symm)
  credited := fun halfOpen => by
    have before := faithful.credited (same.state ▸ halfOpen)
    have fewer : (system.calls.eraseIdx place).countP (Call.pending system.epoch) ≤
        system.calls.countP (Call.pending system.epoch) :=
      (List.eraseIdx_sublist system.calls place).countP_le
    show breaker.halfOpenSuccesses + _ ≤ _
    rw [same.successes]
    exact (Nat.add_le_add_left fewer _).trans before

/-- A documented change outdates every reading. -/
theorem Faithful.setState (faithful : Faithful config system) {newState : State}
    (documented : system.breaker.state ≠ newState →
      Change.Documented config
        { source := system.breaker.state
          target := newState
          sinceOpened := system.clock - system.openedAt
          successes := system.succeeded.count system.epoch }) :
    Faithful config (system.setState newState) := by
  by_cases same : system.breaker.state = newState
  · rw [setState_same same]
    exact faithful
  · have outdated : ∀ call ∈ (system.setState newState).calls,
        call.seen < (system.setState newState).epoch ∧
          call.entered < (system.setState newState).epoch := by
      intro call member
      rw [calls_setState] at member
      rw [epoch_setState same]
      have seen := faithful.seen call member
      exact ⟨Nat.lt_succ_of_le seen.1, Nat.lt_succ_of_le seen.2⟩
    refine ⟨?_, ?_, ?_, ?_, ?_, ?_⟩
    · intro change member
      simp only [System.setState, if_neg same, List.mem_append, List.mem_singleton] at member
      rcases member with old | rfl
      · exact faithful.documented change old
      · exact documented same
    · intro isOpen
      rw [state_setState] at isOpen
      subst isOpen
      simp [System.setState, CircuitBreaker.setState, same]
    · have now : (system.setState newState).breaker.stateChanged = system.clock := by
        cases newState <;> simp [System.setState, CircuitBreaker.setState, same]
      rw [now, clock_setState]
    · intro call member
      exact ⟨(outdated call member).1.le, (outdated call member).2.le⟩
    · intro call member unchanged
      exact absurd unchanged (outdated call member).1.ne
    · intro halfOpen
      rw [state_setState] at halfOpen
      subst halfOpen
      have none : (system.setState .stateHalfOpen).calls.countP
          (Call.pending (system.setState .stateHalfOpen).epoch) = 0 := by
        rw [List.countP_eq_zero]
        intro call member
        simp [Call.pending, (outdated call member).2.ne]
      rw [none, (halfOpen_setState same).2]
      exact Nat.zero_le _

/-- Time that has passed by the clock of the breaker has passed. -/
theorem le_of_le_timeSub {timeout instant other : Int} (later : other ≤ instant)
    (isOver : timeout ≤ timeSub instant other) : timeout ≤ instant - other := by
  unfold timeSub maxDuration at isOver
  split at isOver
  · omega
  · split at isOver <;> omega

theorem Call.agrees_of_bookkeeping {call : Call} (inside : call.phase.bookkeeping = true) :
    call.Agrees config system := by
  unfold Call.Agrees
  cases phaseEq : call.phase <;> simp_all [Phase.bookkeeping]

theorem Call.pending_of_bookkeeping {call : Call} {epoch : Nat}
    (inside : call.phase.bookkeeping = true) : call.pending epoch = false := by
  unfold Call.pending
  cases phaseEq : call.phase <;> simp_all [Phase.bookkeeping]

/-- A step that meets the condition keeps all that. -/
theorem Faithful.step (faithful : Faithful config system) (met : current system op = true)
    (notReset : op ≠ .reset) (notTrip : op ≠ .trip) (moved : Moves config system op next) :
    Faithful config next := by
  have same := SameHalfOpen.refl system.breaker
  cases moved with
  | tick elapsed =>
    have later : system.clock ≤ system.clock + elapsed := Int.le_add_of_nonneg_right (by simp)
    exact
      { documented := faithful.documented
        opened := faithful.opened
        past := faithful.past.trans later
        seen := faithful.seen
        agrees := fun call member unchanged =>
          (faithful.agrees call member unchanged).mono rfl rfl later (Nat.le_refl _)
        credited := faithful.credited }
  | begins =>
    have fresh : ∀ call ∈ system.begin.calls, call ∈ system.calls ∨
        (call.seen = system.epoch ∧ call.entered = system.epoch ∧ call.Agrees config system) := by
      intro call member
      rcases List.mem_append.mp member with old | added
      · exact Or.inl old
      · obtain rfl := List.mem_singleton.mp added
        refine Or.inr ⟨rfl, rfl, ?_⟩
        cases state : system.breaker.state <;> simp [Call.Agrees, state]
    have notPending : system.begin.calls.countP (Call.pending system.epoch) =
        system.calls.countP (Call.pending system.epoch) := by
      show (system.calls ++ [_]).countP _ = _
      rw [List.countP_append]
      cases state : system.breaker.state <;> simp [Call.pending]
    refine ⟨faithful.documented, faithful.opened, faithful.past, fun call member => ?_,
      fun call member unchanged => ?_, fun halfOpen => ?_⟩
    · rcases fresh call member with old | ⟨seen, entered, _⟩
      · exact faithful.seen call old
      · exact ⟨Nat.le_of_eq seen, Nat.le_of_eq entered⟩
    · have knows : call.Agrees config system := by
        rcases fresh call member with old | ⟨_, _, knows⟩
        · exact faithful.agrees call old unchanged
        · exact knows
      exact knows.mono rfl rfl (Int.le_refl _) (Nat.le_refl _)
    · show _ + system.begin.calls.countP (Call.pending system.epoch) ≤ _
      rw [notPending]
      exact faithful.credited halfOpen
  | resets => exact absurd rfl notReset
  | trips => exact absurd rfl notTrip
  | goesOn found source target agree =>
    exact faithful.passes found agree (fun _ => Call.agrees_of_bookkeeping target)
      (by rw [Call.pending_of_bookkeeping target]; exact nofun)
  | leaves found source agree => exact faithful.leave agree
  | @waited place call found source elapsed =>
    refine faithful.passes found same (fun unchanged => ?_) (by simp [Call.pending])
    have knows := faithful.agrees call (List.mem_of_getElem? found) unchanged
    simp only [Call.Agrees, source] at knows
    exact ⟨knows, le_of_le_timeSub faithful.past elapsed⟩
  | @halfOpens place call found source =>
    have kept : Faithful config (system.setState .stateHalfOpen) := by
      refine faithful.setState fun changes => ?_
      have unchanged : call.seen = system.epoch := by
        simpa [current, found, source, changes] using met
      have knows := faithful.agrees call (List.mem_of_getElem? found) unchanged
      simp only [Call.Agrees, source] at knows
      obtain ⟨isOpen, isOver⟩ := knows
      rw [isOpen, faithful.opened isOpen]
      exact isOver
    have foundAfter : (system.setState .stateHalfOpen).calls[place]? = some call := by
      rw [calls_setState]
      exact found
    exact kept.admitted foundAfter
  | admits found source below => exact faithful.admitted found
  | @succeeds place call found source =>
    have seen := faithful.seen call (List.mem_of_getElem? found)
    refine faithful.proceed found rfl rfl (Nat.le_refl _) seen (fun _ => trivial) fun _ => ?_
    by_cases inside : call.entered = system.epoch
    · simp [Call.pending, source, inside, List.count_append]
      omega
    · simp [Call.pending, source, inside, List.count_append]
  | fails found source =>
    exact faithful.passes found same (fun _ => trivial) (by simp [Call.pending])
  | @readsClosed place call failed found source =>
    have seen := faithful.seen call (List.mem_of_getElem? found)
    exact faithful.proceed found rfl rfl (Nat.le_refl _) ⟨Nat.le_refl _, seen.2⟩
      (fun _ => trivial) (by simp [Call.pending])
  | @readsHalfOpen place call failed found source state =>
    have seen := faithful.seen call (List.mem_of_getElem? found)
    refine faithful.proceed found rfl rfl (Nat.le_refl _) ⟨Nat.le_refl _, seen.2⟩
      (fun _ => state) fun _ => ?_
    cases failed <;> simp [Call.pending, source]
  | @counts place call failed found source =>
    have seen := faithful.seen call (List.mem_of_getElem? found)
    refine faithful.proceed found rfl rfl (Nat.le_refl _) seen (fun unchanged => ?_) fun _ => ?_
    · have knows := faithful.agrees call (List.mem_of_getElem? found) unchanged
      simp only [Call.Agrees, source] at knows
      cases failed <;> exact knows
    · cases failed <;> simp [Call.pending, source]
  | opens found =>
    refine Faithful.leave (faithful.setState fun changes => ?_) (.refl _)
    cases state : system.breaker.state with
    | stateClosed => trivial
    | stateOpen => exact absurd state changes
    | stateHalfOpen => trivial
  | @credits place call found source =>
    have seen := faithful.seen call (List.mem_of_getElem? found)
    refine faithful.proceed found rfl rfl (Nat.le_succ _) seen (fun unchanged => ?_)
      fun halfOpen => ?_
    · have knows := faithful.agrees call (List.mem_of_getElem? found) unchanged
      simp only [Call.Agrees, source] at knows
      exact knows
    · have inside : call.entered = system.epoch := by
        simpa [current, found, source, halfOpen] using met
      simp [Call.pending, source, inside]
  | staysHalfOpen found source below => exact faithful.leave same
  | @fills place call found source enough =>
    refine faithful.passes found same (fun unchanged => ?_) (by simp [Call.pending])
    have knows := faithful.agrees call (List.mem_of_getElem? found) unchanged
    simp only [Call.Agrees, source] at knows
    exact ⟨knows, enough⟩
  | @closes place call found source =>
    refine Faithful.leave (faithful.setState fun changes => ?_) (.refl _)
    have unchanged : call.seen = system.epoch := by
      simpa [current, found, source, changes] using met
    have knows := faithful.agrees call (List.mem_of_getElem? found) unchanged
    simp only [Call.Agrees, source] at knows
    obtain ⟨halfOpen, enough⟩ := knows
    rw [halfOpen]
    exact enough.trans ((Nat.le_add_right _ _).trans (faithful.credited halfOpen))

/-- In a run of calls in which none acts on an outdated reading, the state changes only as
documented. -/
theorem documented_of_current (config : Config) (clock : Time) {ops : List Op} {system : System}
    (withoutManual : ∀ op ∈ ops, op ≠ .reset ∧ op ≠ .trip)
    (meets : (machine config.withDefaults).Meets
      (fun system op => current system op = true) (new clock) ops)
    (reached : (machine config.withDefaults).Reaches (new clock) ops system) :
    ∀ change ∈ system.changes, change.Documented config.withDefaults := by
  have both := Machine.meets_and.mpr
    ⟨Machine.meets_of_forall (fun op member _ => withoutManual op member) _, meets⟩
  have faithful : Faithful config.withDefaults system :=
    Machine.reaches_invariant
      (fun _ _ _ _ faithful met stepEq =>
        faithful.step met.2 met.1.1 met.1.2 (step_moves stepEq))
      (faithful_new clock) both reached
  exact faithful.documented

theorem inInt64_five : InInt64 5 := ⟨by decide, by decide⟩

/-- One failure opens the breaker for five nanoseconds, and two successes of three concurrent calls
close it. -/
def briefConfig : Config where
  rateReached := fun _ => false
  successThreshold := 2
  timeout := 5
  minRequests := 1
  maxRequests := 3
  shouldTrip := some fun _ => true
  timeoutFits := inInt64_five

/-- A call fails and opens the breaker. -/
def failing : List Op := [[.call, .finish 0 .failure], advances 9 0].flatten

/-- Two calls one after the other close the breaker again. -/
def recovering : List Op :=
  [[.tick 5, .call, .advance 0, .advance 0, .finish 0 .success], advances 4 0,
    [.call, .advance 0, .finish 0 .success], advances 5 0].flatten

theorem documented_recovering :
    ∃ system, (machine briefConfig.withDefaults).run (new 0) (failing ++ recovering) =
        some system ∧
      system.changes =
        [⟨.stateClosed, .stateOpen, 0, 0⟩, ⟨.stateOpen, .stateHalfOpen, 5, 0⟩,
          ⟨.stateHalfOpen, .stateClosed, 5, 2⟩] ∧
      ∀ change ∈ system.changes, change.Documented briefConfig.withDefaults := by
  have ran : ((machine briefConfig.withDefaults).run (new 0) (failing ++ recovering)).map
      System.changes = some [⟨.stateClosed, .stateOpen, 0, 0⟩,
        ⟨.stateOpen, .stateHalfOpen, 5, 0⟩, ⟨.stateHalfOpen, .stateClosed, 5, 2⟩] := by
    decide +kernel
  obtain ⟨system, ranEq, changes⟩ := Option.map_eq_some_iff.mp ran
  exact ⟨system, ranEq, changes, documented_of_current briefConfig 0 (by decide)
    (by decide +kernel) ⟨_, List.prefix_rfl, ranEq⟩⟩

/-- After the timeout a call decides to make the breaker half-open and is overtaken by another one,
which does so and comes to run its function. -/
def overtaken : List Op :=
  [failing, [.tick 5, .call, .advance 0, .call, .advance 1, .advance 1]].flatten

/-- The other call succeeds, one more closes the breaker, and the first goes on. -/
def afterClosing : List Op :=
  [overtaken, [.finish 1 .success], advances 4 1, [.call, .advance 1, .finish 1 .success],
    advances 5 1, [.advance 0]].flatten

/-- The other call fails and opens the breaker, and the first goes on. -/
def afterReopening : List Op :=
  [overtaken, [.finish 1 .failure], advances 3 1, [.advance 0]].flatten

/-- A call from before a failure succeeds once the breaker is half-open, and so does the only call
that the half-open breaker let through. -/
def slowCall : List Op :=
  [[.call, .call, .finish 1 .failure], advances 9 1,
    [.tick 5, .call, .advance 1, .advance 1, .finish 0 .success], advances 4 0,
    [.finish 0 .success], advances 5 0].flatten

/-- The latest change of the state in a run. -/
def lastChange (ops : List Op) : Option Change :=
  ((machine briefConfig.withDefaults).run (new 0) ops).bind fun system => system.changes.getLast?

/-- A call that found the timeout over makes a breaker half-open that has closed meanwhile, or one
that has just opened again; and the success of a call from before the failure closes a half-open
breaker with only one success of its own. -/
theorem not_documented_outdated :
    (∃ change, lastChange afterClosing = some change ∧
      change.source = .stateClosed ∧ change.target = .stateHalfOpen) ∧
    (∃ change, lastChange afterReopening = some change ∧
      change.source = .stateOpen ∧ change.target = .stateHalfOpen ∧
      change.sinceOpened < briefConfig.withDefaults.timeout) ∧
    (∃ change, lastChange slowCall = some change ∧
      change.source = .stateHalfOpen ∧ change.target = .stateClosed ∧
      change.successes < briefConfig.withDefaults.successThreshold) := by
  refine ⟨⟨⟨.stateClosed, .stateHalfOpen, 5, 0⟩, ?_⟩, ⟨⟨.stateOpen, .stateHalfOpen, 0, 0⟩, ?_⟩,
    ⟨⟨.stateHalfOpen, .stateClosed, 5, 1⟩, ?_⟩⟩
  · exact ⟨by decide +kernel, rfl, rfl⟩
  · exact ⟨by decide +kernel, rfl, rfl, by decide⟩
  · exact ⟨by decide +kernel, rfl, rfl, by decide⟩

end Plumego.Resilience
