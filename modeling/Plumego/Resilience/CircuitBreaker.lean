/-
Module: Plumego.Resilience.CircuitBreaker
Purpose: The circuit breaker: its three states, the counters of the closed and of the half-open
  state, and any number of calls beside each other, one atomic operation or one section of
  `stateMu` at a time.
Trusted boundary: a comparison of two `float64` values (the failure rate and its threshold) is
  left open, as is a custom trip function. The counters stay below 2^64. The function of a call
  returns or panics at any time. The clock does not go back. The hook on state changes runs in a
  goroutine of its own and is left out.
Main exports: Config, CircuitBreaker, Call, System, Op, step, machine
-/
import Plumego.Go.Strings
import Plumego.Go.Time
import Plumego.Lib.Machine

namespace Plumego.Resilience

open Plumego.Go Plumego.Lib

/-- `State`. -/
inductive State where
  | stateClosed
  | stateOpen
  | stateHalfOpen
deriving DecidableEq, Repr

/-- `Counts`: the consecutive failures are not tracked and always 0. -/
structure Counts where
  requests : Nat
  successes : Nat
  failures : Nat
  consecutiveSuccesses : Nat
  consecutiveFailures : Nat
deriving DecidableEq, Repr

/-- `Config`, as far as the breaker reads it. `rateReached` is the comparison
`counts.FailureRate() >= config.FailureThreshold`. A `time.Duration` is an `int64`. -/
structure Config where
  rateReached : Counts → Bool
  successThreshold : Nat
  timeout : Int
  minRequests : Nat
  maxRequests : Nat
  shouldTrip : Option (Counts → Bool)
  timeoutFits : InInt64 timeout

/-- The defaults that `New` puts in place of zero values. -/
def Config.withDefaults (config : Config) : Config where
  rateReached := config.rateReached
  successThreshold := if config.successThreshold = 0 then 3 else config.successThreshold
  timeout := if config.timeout = 0 then 30000000000 else config.timeout
  minRequests := if config.minRequests = 0 then 10 else config.minRequests
  maxRequests := if config.maxRequests = 0 then 1 else config.maxRequests
  shouldTrip := config.shouldTrip
  timeoutFits := by
    have fits := config.timeoutFits
    split
    · exact ⟨by decide, by decide⟩
    · exact fits

/-- `ErrCircuitOpen`. -/
def errCircuitOpen : GoError := .new "circuit breaker is open"

/-- `ErrTooManyRequests`. -/
def errTooManyRequests : GoError := .new "too many requests"

/-- `CircuitBreaker`: what the calls share. -/
structure CircuitBreaker where
  state : State
  stateChanged : Time
  requests : Nat
  failures : Nat
  successes : Nat
  halfOpenRequests : Nat
  halfOpenSuccesses : Nat
deriving DecidableEq, Repr

/-- `setState`: one section of `stateMu`. -/
def CircuitBreaker.setState (breaker : CircuitBreaker) (now : Time) (newState : State) :
    CircuitBreaker :=
  if breaker.state = newState then breaker
  else
    let changed := { breaker with state := newState, stateChanged := now }
    match newState with
    | .stateClosed => { changed with requests := 0, failures := 0, successes := 0 }
    | .stateOpen => changed
    | .stateHalfOpen => { changed with halfOpenRequests := 0, halfOpenSuccesses := 0 }

/-- The decision at the end of `checkShouldOpen`. -/
def Config.trips (config : Config) (counts : Counts) : Bool :=
  match config.shouldTrip with
  | some shouldTrip => shouldTrip counts
  | none => config.rateReached counts

/-- Where a call is: each phase but `executing` is named by the operation that comes next. -/
inductive Phase where
  | readElapsed
  | setHalfOpen
  | loadHalfOpenRequests
  | executing
  | loadState (failed : Bool)
  | addRequests (failed : Bool)
  | addFailures
  | addSuccesses
  | loadRequests
  | countRequests
  | countSuccesses (requests : Nat)
  | countFailures (requests successes : Nat)
  | countHalfOpenSuccesses (requests successes failures : Nat)
  | setOpen
  | addHalfOpenRequests (failed : Bool)
  | reopen
  | addHalfOpenSuccesses
  | loadHalfOpenSuccesses
  | setClosed
deriving DecidableEq, Repr

/-- A call of `Call` in flight, with the state that `beforeRequest` read. No step reads the other
two: how often the state had changed when the call last read it, and when it was let through. -/
structure Call where
  state : State
  phase : Phase
  seen : Nat
  entered : Nat
deriving DecidableEq, Repr

/-- A change of the state, with the time since the latest change to open and the number of calls
let through since the latest change of all whose function has succeeded. -/
structure Change where
  source : State
  target : State
  sinceOpened : Int
  successes : Nat
deriving DecidableEq, Repr

/-- The breaker, the clock and the calls in flight. No step reads the changes, the time of the
latest change to open, and of the functions that succeeded when their calls were let through. -/
structure System where
  breaker : CircuitBreaker
  clock : Time
  calls : List Call
  changes : List Change
  openedAt : Time
  succeeded : List Nat
deriving DecidableEq, Repr

/-- `New`. -/
def new (clock : Time) : System where
  breaker :=
    { state := .stateClosed
      stateChanged := clock
      requests := 0
      failures := 0
      successes := 0
      halfOpenRequests := 0
      halfOpenSuccesses := 0 }
  clock := clock
  calls := []
  changes := []
  openedAt := clock
  succeeded := []

/-- How often the state has changed. -/
def System.epoch (system : System) : Nat := system.changes.length

/-- `setState`, with a record of the change. -/
def System.setState (system : System) (newState : State) : System :=
  if system.breaker.state = newState then system
  else
    { system with
      breaker := system.breaker.setState system.clock newState
      changes := system.changes ++
        [{ source := system.breaker.state
           target := newState
           sinceOpened := system.clock - system.openedAt
           successes := system.succeeded.count system.epoch }]
      openedAt := if newState = .stateOpen then system.clock else system.openedAt }

/-- A call goes on. -/
def System.proceed (system : System) (place : Nat) (call : Call) : System :=
  { system with calls := system.calls.set place call }

/-- A call returns. -/
def System.leave (system : System) (place : Nat) : System :=
  { system with calls := system.calls.eraseIdx place }

/-- How the function of a call ends. A panic leaves `Call` before `afterRequest`. -/
inductive Outcome where
  | success
  | failure
  | panics
deriving DecidableEq, Repr

/-- What can happen next. A call is named by its place among those in flight. -/
inductive Op where
  | tick (elapsed : Nat)
  | call
  | advance (place : Nat)
  | finish (place : Nat) (outcome : Outcome)
  | reset
  | trip
deriving DecidableEq, Repr

/-- What a step shows to the caller: `Call` returns the error of its function or one of its own. -/
inductive Output where
  | nothing
  | refused (error : GoError)
  | returned
deriving DecidableEq, Repr

/-- The start of `Call`: `beforeRequest` reads the state, and lets the call through if it is
closed. -/
def System.begin (system : System) : System :=
  let phase : Phase :=
    match system.breaker.state with
    | .stateClosed => .executing
    | .stateOpen => .readElapsed
    | .stateHalfOpen => .loadHalfOpenRequests
  { system with
    calls := system.calls ++
      [{ state := system.breaker.state
         phase := phase
         seen := system.epoch
         entered := system.epoch }] }

/-- The call is let through. -/
def System.admitted (system : System) (place : Nat) (call : Call) : System :=
  system.proceed place { call with phase := .executing, entered := system.epoch }

/-- The next operation of a call that is in `beforeRequest` or `afterRequest`. -/
def advance (config : Config) (system : System) (place : Nat) (call : Call) :
    Option (System × Output) :=
  let breaker := system.breaker
  let next (breaker : CircuitBreaker) (phase : Phase) : Option (System × Output) :=
    some ({ system with breaker := breaker }.proceed place { call with phase := phase }, .nothing)
  match call.phase with
  | .executing => none
  -- `beforeRequest`
  | .readElapsed =>
    if config.timeout ≤ timeSub system.clock breaker.stateChanged then next breaker .setHalfOpen
    else some (system.leave place, .refused errCircuitOpen)
  | .setHalfOpen => some ((system.setState .stateHalfOpen).admitted place call, .nothing)
  | .loadHalfOpenRequests =>
    if config.maxRequests ≤ breaker.halfOpenRequests then
      some (system.leave place, .refused errTooManyRequests)
    else some (system.admitted place call, .nothing)
  -- `afterRequest`
  | .loadState failed =>
    let reading := { call with seen := system.epoch }
    match breaker.state with
    | .stateClosed =>
      some (system.proceed place { reading with phase := .addRequests failed }, .nothing)
    | .stateOpen => some (system.leave place, .returned)
    | .stateHalfOpen =>
      some (system.proceed place { reading with phase := .addHalfOpenRequests failed }, .nothing)
  | .addRequests failed =>
    next { breaker with requests := breaker.requests + 1 }
      (if failed then .addFailures else .addSuccesses)
  | .addFailures => next { breaker with failures := breaker.failures + 1 } .loadRequests
  | .addSuccesses =>
    some ({ system with
      breaker := { breaker with successes := breaker.successes + 1 } }.leave place, .returned)
  | .addHalfOpenRequests failed =>
    next { breaker with halfOpenRequests := breaker.halfOpenRequests + 1 }
      (if failed then .reopen else .addHalfOpenSuccesses)
  | .reopen => some ((system.setState .stateOpen).leave place, .returned)
  | .addHalfOpenSuccesses =>
    next { breaker with halfOpenSuccesses := breaker.halfOpenSuccesses + 1 }
      .loadHalfOpenSuccesses
  | .loadHalfOpenSuccesses =>
    if config.successThreshold ≤ breaker.halfOpenSuccesses then next breaker .setClosed
    else some (system.leave place, .returned)
  | .setClosed => some ((system.setState .stateClosed).leave place, .returned)
  -- `checkShouldOpen`
  | .loadRequests =>
    if breaker.requests < config.minRequests then some (system.leave place, .returned)
    else next breaker .countRequests
  | .countRequests => next breaker (.countSuccesses breaker.requests)
  | .countSuccesses requests => next breaker (.countFailures requests breaker.successes)
  | .countFailures requests successes =>
    next breaker (.countHalfOpenSuccesses requests successes breaker.failures)
  | .countHalfOpenSuccesses requests successes failures =>
    let counts : Counts :=
      { requests := requests
        successes := successes
        failures := failures
        consecutiveSuccesses := breaker.halfOpenSuccesses
        consecutiveFailures := 0 }
    if config.trips counts then next breaker .setOpen
    else some (system.leave place, .returned)
  | .setOpen => some ((system.setState .stateOpen).leave place, .returned)

/-- The function of a call ends. -/
def finish (system : System) (place : Nat) (call : Call) (outcome : Outcome) :
    Option (System × Output) :=
  match call.phase, outcome with
  | .executing, .success =>
    some ({ system with succeeded := system.succeeded ++ [call.entered] }.proceed place
      { call with phase := .loadState false }, .nothing)
  | .executing, .failure =>
    some (system.proceed place { call with phase := .loadState true }, .nothing)
  | .executing, .panics => some (system.leave place, .returned)
  | _, _ => none

/-- One step. -/
def step (config : Config) (system : System) : Op → Option (System × Output)
  | .tick elapsed => some ({ system with clock := system.clock + elapsed }, .nothing)
  | .call => some (system.begin, .nothing)
  | .advance place => system.calls[place]?.bind fun call => advance config system place call
  | .finish place outcome => system.calls[place]?.bind fun call => finish system place call outcome
  | .reset => some (system.setState .stateClosed, .nothing)
  | .trip => some (system.setState .stateOpen, .nothing)

/-- The breaker with a configuration. -/
def machine (config : Config) : Machine System Op Output where
  step := step config

end Plumego.Resilience
