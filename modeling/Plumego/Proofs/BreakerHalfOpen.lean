/-
Module: Plumego.Proofs.BreakerHalfOpen
Purpose: Who gets through a half-open breaker: when a breaker that is at rest lets the next call
  through and closes again, and how many functions run at the same time.
Trusted boundary: none
Main exports: HalfOpenAccount, Admits, SucceedsAlone, NeverStuck, neverStuck_iff,
  Call.probes, executing_exceeds
-/
import Plumego.Proofs.BreakerTransitions

namespace Plumego.Resilience

open Plumego.Go Plumego.Lib

variable {config : Config} {system next : System} {op : Op} {out : Output}

/-! ## The half-open counters -/

/-- A call that was counted as half-open and has neither been credited nor opened the breaker. -/
def Call.uncredited (call : Call) : Bool :=
  match call.phase with
  | .reopen | .addHalfOpenSuccesses => true
  | _ => false

/-- A call that is about to close the breaker if the successes suffice. -/
def Call.Closing (call : Call) : Prop :=
  call.phase = .loadHalfOpenSuccesses ∨ call.phase = .setClosed

/-- While the breaker is half-open, every counted call is credited or still on its way, and some
call is on its way to close the breaker once the successes suffice. -/
structure HalfOpenAccount (config : Config) (system : System) : Prop where
  counted : system.breaker.state = .stateHalfOpen → system.breaker.halfOpenRequests ≤
    system.breaker.halfOpenSuccesses + system.calls.countP Call.uncredited
  closing : system.breaker.state = .stateHalfOpen →
    config.successThreshold ≤ system.breaker.halfOpenSuccesses →
      ∃ call ∈ system.calls, call.Closing

/-- There is nothing to account for outside of half-open. -/
theorem HalfOpenAccount.of_ne (away : system.breaker.state ≠ .stateHalfOpen) :
    HalfOpenAccount config system :=
  ⟨fun halfOpen => absurd halfOpen away, fun halfOpen => absurd halfOpen away⟩

theorem halfOpenAccount_new (clock : Time) : HalfOpenAccount config (new clock) :=
  .of_ne nofun

/-- A call that goes on: what it adds to one side of the account it adds to the other, and if it
adds to the successes it looks at them next. -/
theorem HalfOpenAccount.proceed (account : HalfOpenAccount config system) {place : Nat}
    {call after : Call} {breaker : CircuitBreaker} {succeeded : List Nat}
    (found : system.calls[place]? = some call) (state : breaker.state = system.breaker.state)
    (balance : breaker.halfOpenRequests + system.breaker.halfOpenSuccesses +
        (if call.uncredited then 1 else 0) ≤
      system.breaker.halfOpenRequests + breaker.halfOpenSuccesses +
        (if after.uncredited then 1 else 0))
    (closes : call.Closing → after.Closing)
    (looks : breaker.halfOpenSuccesses = system.breaker.halfOpenSuccesses ∨ after.Closing) :
    HalfOpenAccount config
      ({ system with breaker := breaker, succeeded := succeeded }.proceed place after) where
  counted := fun halfOpen => by
    have before := account.counted (state ▸ halfOpen)
    have counts := countP_set Call.uncredited found after
    show breaker.halfOpenRequests ≤ breaker.halfOpenSuccesses +
      (system.calls.set place after).countP Call.uncredited
    omega
  closing := fun halfOpen enough => by
    have inside := (List.getElem?_eq_some_iff.mp found).1
    rcases looks with unchanged | afterCloses
    · obtain ⟨closer, member, closing⟩ := account.closing (state ▸ halfOpen) (unchanged ▸ enough)
      obtain ⟨other, foundOther⟩ := List.getElem?_of_mem member
      by_cases here : place = other
      · subst here
        cases found.symm.trans foundOther
        exact ⟨after, List.mem_set inside after, closes closing⟩
      · exact ⟨closer, List.mem_of_getElem? ((List.getElem?_set_ne here).trans foundOther),
          closing⟩
    · exact ⟨after, List.mem_set inside after, afterCloses⟩

/-- A call that goes on without a part in the account. -/
theorem HalfOpenAccount.passes (account : HalfOpenAccount config system) {place : Nat}
    {call after : Call} {breaker : CircuitBreaker} {succeeded : List Nat}
    (found : system.calls[place]? = some call) (same : SameHalfOpen system.breaker breaker)
    (credit : after.uncredited = call.uncredited) (closes : call.Closing → after.Closing) :
    HalfOpenAccount config
      ({ system with breaker := breaker, succeeded := succeeded }.proceed place after) := by
  apply account.proceed found same.state _ closes (Or.inl same.successes)
  rw [credit, same.requests, same.successes]

/-- A call that returns without a part in the account. -/
theorem HalfOpenAccount.leave (account : HalfOpenAccount config system) {place : Nat}
    {call : Call} {breaker : CircuitBreaker} (found : system.calls[place]? = some call)
    (same : SameHalfOpen system.breaker breaker) (credit : call.uncredited = false)
    (notClosing : call.Closing →
      system.breaker.halfOpenSuccesses < config.successThreshold) :
    HalfOpenAccount config ({ system with breaker := breaker }.leave place) where
  counted := fun halfOpen => by
    have before := account.counted (same.state ▸ halfOpen)
    rw [countP_eraseIdx Call.uncredited found, credit] at before
    show breaker.halfOpenRequests ≤ breaker.halfOpenSuccesses +
      (system.calls.eraseIdx place).countP Call.uncredited
    rw [same.requests, same.successes]
    exact before
  closing := fun halfOpen enough => by
    obtain ⟨closer, member, closing⟩ :=
      account.closing (same.state ▸ halfOpen) (same.successes ▸ enough)
    refine ⟨closer, ?_, closing⟩
    obtain ⟨other, foundOther⟩ := List.getElem?_of_mem member
    refine List.mem_eraseIdx_iff_getElem?.mpr ⟨other, ?_, foundOther⟩
    intro here
    rw [here, found] at foundOther
    cases foundOther
    exact absurd (notClosing closing) (Nat.not_lt.mpr (same.successes ▸ enough))

theorem Phase.uncredited_of_bookkeeping {call : Call} (inside : call.phase.bookkeeping = true) :
    call.uncredited = false ∧ ¬ call.Closing := by
  unfold Call.uncredited Call.Closing
  cases phaseEq : call.phase <;> simp_all [Phase.bookkeeping]

theorem Phase.uncredited_of_apart {call : Call} (inside : call.phase.apart = true) :
    call.uncredited = false ∧ ¬ call.Closing := by
  unfold Call.uncredited Call.Closing
  cases phaseEq : call.phase <;> simp_all [Phase.apart]

/-- Every step keeps the account. -/
theorem HalfOpenAccount.step (positive : 0 < config.successThreshold)
    (account : HalfOpenAccount config system) (moved : Moves config system op next) :
    HalfOpenAccount config next := by
  have same := SameHalfOpen.refl system.breaker
  cases moved with
  | tick elapsed => exact ⟨account.counted, account.closing⟩
  | begins =>
    refine ⟨fun halfOpen => ?_, fun halfOpen enough => ?_⟩
    · have before := account.counted halfOpen
      show _ ≤ _ + (system.calls ++ [_]).countP Call.uncredited
      rw [List.countP_append]
      exact before.trans (Nat.add_le_add_left (Nat.le_add_right _ _) _)
    · obtain ⟨closer, member, closing⟩ := account.closing halfOpen enough
      exact ⟨closer, List.mem_append_left _ member, closing⟩
  | resets | trips => exact .of_ne (by simp)
  | goesOn found source target agree =>
    obtain ⟨before, open_⟩ := Phase.uncredited_of_bookkeeping source
    refine account.passes found agree ?_ fun closing => absurd closing open_
    rw [before]
    exact (Phase.uncredited_of_bookkeeping target).1
  | leaves found source agree =>
    obtain ⟨before, open_⟩ := Phase.uncredited_of_apart source
    exact account.leave found agree before fun closing => absurd closing open_
  | waited found source elapsed =>
    exact account.passes found same (by simp [Call.uncredited, source])
      (by simp [Call.Closing, source])
  | @halfOpens place call found source =>
    by_cases already : system.breaker.state = .stateHalfOpen
    · rw [setState_same already]
      exact account.passes found same (by simp [Call.uncredited, source])
        (by simp [Call.Closing, source])
    · obtain ⟨noRequests, noSuccesses⟩ := halfOpen_setState already
      refine ⟨fun _ => ?_, fun _ enough => ?_⟩
      · show (system.setState .stateHalfOpen).breaker.halfOpenRequests ≤ _
        rw [noRequests]
        exact Nat.zero_le _
      · have none : config.successThreshold ≤ 0 := noSuccesses ▸ enough
        exact absurd none (Nat.not_le.mpr positive)
  | admits found source below | succeeds found source | fails found source
  | readsClosed found source | readsHalfOpen found source state =>
    exact account.passes found same (by simp [Call.uncredited, source])
      (by simp [Call.Closing, source])
  | @counts place call failed found source =>
    refine account.proceed found rfl ?_ (by simp [Call.Closing, source]) (Or.inl rfl)
    cases failed <;> simp [Call.uncredited, source] <;> omega
  | opens found => exact .of_ne (by simp [System.leave])
  | credits found source =>
    refine account.proceed found rfl ?_ (by simp [Call.Closing, source]) (Or.inr (Or.inl rfl))
    simp [Call.uncredited, source, Nat.add_assoc]
  | staysHalfOpen found source below =>
    exact account.leave found same (by simp [Call.uncredited, source]) fun _ => below
  | fills found source enough =>
    exact account.passes found same (by simp [Call.uncredited, source])
      fun _ => Or.inr rfl
  | closes found source => exact .of_ne (by simp [System.leave])

/-! ## One call at a time -/

/-- The next call, alone in flight, comes to run its function. -/
def Admits (config : Config) (system : System) : Prop :=
  ∃ steps running, (machine config).run system (.call :: List.replicate steps (.advance 0)) =
    some running ∧ ∃ call, running.calls[0]? = some call ∧ call.phase = .executing

/-- A call, alone in flight, runs its function, which succeeds, and returns. -/
def SucceedsAlone (config : Config) (before after : System) : Prop :=
  ∃ first running call second,
    (machine config).run before (.call :: List.replicate first (.advance 0)) = some running ∧
    running.calls[0]? = some call ∧ call.phase = .executing ∧
    (machine config).run running (.finish 0 .success :: List.replicate second (.advance 0)) =
      some after ∧
    after.calls = []

/-- From every state that can be reached and has no call in flight, the next call is let through
after some time, and if the breaker is half-open it comes to close by calls that succeed. -/
def NeverStuck (config : Config) : Prop :=
  ∀ clock ops system, (machine config).Reaches (new clock) ops system → system.calls = [] →
    (∃ elapsed : Nat, Admits config { system with clock := system.clock + elapsed }) ∧
      (system.breaker.state = .stateHalfOpen →
        ∃ closed, Relation.ReflTransGen (SucceedsAlone config) system closed ∧
          closed.breaker.state = .stateClosed)

theorem admits_of_closed (empty : system.calls = [])
    (state : system.breaker.state = .stateClosed) : Admits config system :=
  ⟨0, _, rfl, ⟨.stateClosed, .executing, system.epoch, system.epoch⟩,
    by simp [System.begin, empty, state], rfl⟩

/-- A call to an open breaker, once the timeout is over. -/
theorem run_call_of_open (empty : system.calls = []) (state : system.breaker.state = .stateOpen)
    (elapsed : config.timeout ≤ timeSub system.clock system.breaker.stateChanged) :
    (machine config).run system [.call, .advance 0, .advance 0] =
      some { system.setState .stateHalfOpen with
        calls := [⟨.stateOpen, .executing, system.epoch, system.epoch + 1⟩] } := by
  simp [Machine.run, machine, step, System.begin, empty, state, advance, elapsed,
    System.proceed, System.admitted, System.setState, System.epoch]

/-- A call to a half-open breaker whose counter is not full. -/
theorem run_call_of_halfOpen (empty : system.calls = [])
    (state : system.breaker.state = .stateHalfOpen)
    (below : system.breaker.halfOpenRequests < config.maxRequests) :
    (machine config).run system [.call, .advance 0] =
      some { system with
        calls := [⟨.stateHalfOpen, .executing, system.epoch, system.epoch⟩] } := by
  have notFull := Nat.not_le.mpr below
  simp [Machine.run, machine, step, System.begin, empty, state, advance, notFull,
    System.proceed, System.admitted, System.epoch]

/-- A half-open breaker whose counter is full refuses the next call. -/
theorem not_admits_of_full (empty : system.calls = [])
    (state : system.breaker.state = .stateHalfOpen)
    (full : config.maxRequests ≤ system.breaker.halfOpenRequests) : ¬ Admits config system := by
  rintro ⟨steps, running, ran, call, found, phaseEq⟩
  match steps with
  | 0 =>
    obtain rfl := by simpa [Machine.run, machine, step] using ran
    obtain rfl := by simpa [System.begin, empty, state] using found
    cases phaseEq
  | 1 =>
    obtain rfl := by
      simpa [Machine.run, machine, step, System.begin, empty, state, advance, full,
        System.leave] using ran
    cases found
  | more + 2 =>
    simp [Machine.run, machine, step, System.begin, empty, state, advance, full,
      System.leave, List.replicate_succ] at ran

/-- What one more success leaves of a half-open breaker: it closes, or both counters are one
higher. -/
def Credited (config : Config) (before after : CircuitBreaker) : Prop :=
  if config.successThreshold ≤ before.halfOpenSuccesses + 1 then after.state = .stateClosed
  else
    after.state = .stateHalfOpen ∧
      after.halfOpenRequests = before.halfOpenRequests + 1 ∧
      after.halfOpenSuccesses = before.halfOpenSuccesses + 1

/-- The only call in flight succeeds while the breaker is half-open. -/
theorem run_success {call : Call} (only : system.calls = [call])
    (executing : call.phase = .executing) (state : system.breaker.state = .stateHalfOpen) :
    ∃ steps after, (machine config).run system
        (.finish 0 .success :: List.replicate steps (.advance 0)) = some after ∧
      after.calls = [] ∧ Credited config system.breaker after.breaker := by
  by_cases enough : config.successThreshold ≤ system.breaker.halfOpenSuccesses + 1
  · refine ⟨5, ?_⟩
    simp [Machine.run, machine, step, finish, only, executing, advance, state, enough,
      System.proceed, System.leave, Credited]
  · refine ⟨4, ?_⟩
    simp [Machine.run, machine, step, finish, only, executing, advance, state, enough,
      System.proceed, System.leave, Credited]

theorem succeedsAlone_of_halfOpen (empty : system.calls = [])
    (state : system.breaker.state = .stateHalfOpen)
    (below : system.breaker.halfOpenRequests < config.maxRequests) :
    ∃ after, SucceedsAlone config system after ∧ after.calls = [] ∧
      Credited config system.breaker after.breaker := by
  have entered := run_call_of_halfOpen empty state below
  obtain ⟨steps, after, ran, emptyAfter, credited⟩ :=
    @run_success config { system with
      calls := [⟨.stateHalfOpen, .executing, system.epoch, system.epoch⟩] } _ rfl rfl state
  exact ⟨after, ⟨1, _, _, steps, entered, rfl, rfl, ran, emptyAfter⟩, emptyAfter, credited⟩

theorem succeedsAlone_of_open (empty : system.calls = [])
    (state : system.breaker.state = .stateOpen)
    (elapsed : config.timeout ≤ timeSub system.clock system.breaker.stateChanged) :
    ∃ after, SucceedsAlone config system after ∧ after.calls = [] ∧
      Credited config (system.setState .stateHalfOpen).breaker after.breaker := by
  have entered := run_call_of_open empty state elapsed
  obtain ⟨steps, after, ran, emptyAfter, credited⟩ :=
    @run_success config { system.setState .stateHalfOpen with
      calls := [⟨.stateOpen, .executing, system.epoch, system.epoch + 1⟩] } _ rfl rfl
      state_setState
  exact ⟨after, ⟨2, _, _, steps, entered, rfl, rfl, ran, emptyAfter⟩, emptyAfter, credited⟩

/-! ## A breaker at rest -/

/-- With no call in flight a half-open breaker has counted no more calls than successes, and not
enough of them. -/
theorem HalfOpenAccount.atRest (account : HalfOpenAccount config system)
    (empty : system.calls = []) (state : system.breaker.state = .stateHalfOpen) :
    system.breaker.halfOpenRequests ≤ system.breaker.halfOpenSuccesses ∧
      system.breaker.halfOpenSuccesses < config.successThreshold := by
  refine ⟨by simpa [empty] using account.counted state, ?_⟩
  by_contra enough
  obtain ⟨call, member, _⟩ := account.closing state (Nat.le_of_not_lt enough)
  simp [empty] at member

/-- Enough successes in a row close the breaker. The induction is on the successes that are still
missing. -/
theorem closes_of_successes (room : config.successThreshold ≤ config.maxRequests)
    (missing : Nat) : ∀ {system : System}, system.calls = [] →
      system.breaker.state = .stateHalfOpen →
      system.breaker.halfOpenRequests ≤ system.breaker.halfOpenSuccesses →
      system.breaker.halfOpenSuccesses < config.successThreshold →
      config.successThreshold ≤ system.breaker.halfOpenSuccesses + missing →
      ∃ closed, Relation.ReflTransGen (SucceedsAlone config) system closed ∧
        closed.breaker.state = .stateClosed := by
  induction missing with
  | zero =>
    intro system _ _ _ below enough
    exact absurd enough (Nat.not_le.mpr below)
  | succ missing ih =>
    intro system empty state counted below enough
    obtain ⟨after, succeeds, emptyAfter, credited⟩ := succeedsAlone_of_halfOpen empty state
      (counted.trans_lt (below.trans_le room))
    unfold Credited at credited
    split at credited
    · exact ⟨after, .single succeeds, credited⟩
    · obtain ⟨halfOpen, requests, successes⟩ := credited
      obtain ⟨closed, chain, closes⟩ :=
        ih emptyAfter halfOpen (by omega) (by omega) (by omega)
      exact ⟨closed, .head succeeds chain, closes⟩

/-- The timeout comes to its end, whatever it is. -/
theorem exists_elapsed (config : Config) (clock changed : Int) :
    ∃ elapsed : Nat, config.timeout ≤ timeSub (clock + elapsed) changed := by
  obtain ⟨lower, upper⟩ := config.timeoutFits
  refine ⟨(config.timeout + changed - clock).toNat, ?_⟩
  have passed : config.timeout ≤
      clock + (config.timeout + changed - clock).toNat - changed := by omega
  unfold timeSub maxDuration
  split
  · omega
  · split <;> omega

theorem neverStuck_of_room (positive : 0 < config.successThreshold)
    (room : config.successThreshold ≤ config.maxRequests) : NeverStuck config := by
  intro clock ops system reached empty
  have account : HalfOpenAccount config system :=
    Machine.reaches_invariant
      (fun _ _ _ _ account _ stepEq => account.step positive (step_moves stepEq))
      (halfOpenAccount_new clock) (Machine.meets_of_forall (fun _ _ _ => trivial) _) reached
  refine ⟨?_, fun state => ?_⟩
  · cases state : system.breaker.state with
    | stateClosed => exact ⟨0, admits_of_closed empty state⟩
    | stateOpen =>
      obtain ⟨elapsed, isOver⟩ := exists_elapsed config system.clock system.breaker.stateChanged
      exact ⟨elapsed, 2, _, run_call_of_open empty state isOver, _, rfl, rfl⟩
    | stateHalfOpen =>
      obtain ⟨counted, below⟩ := account.atRest empty state
      exact ⟨0, 1, _, run_call_of_halfOpen empty state
        (counted.trans_lt (below.trans_le room)), _, rfl, rfl⟩
  · obtain ⟨counted, below⟩ := account.atRest empty state
    exact closes_of_successes room config.successThreshold empty state counted below
      (Nat.le_add_left _ _)

/-! ## A breaker that is stuck -/

theorem SucceedsAlone.run {before after : System} (succeeds : SucceedsAlone config before after) :
    ∃ ops, (machine config).run before ops = some after := by
  obtain ⟨first, running, call, second, entered, _, _, concluded, _⟩ := succeeds
  refine ⟨(.call :: List.replicate first (.advance 0)) ++
    (.finish 0 .success :: List.replicate second (.advance 0)), ?_⟩
  rw [Machine.run_append, entered, Option.bind_some, concluded]

/-- After a trip and the timeout, any number of successes that does not suffice leaves the breaker
half-open with as many calls counted. -/
theorem reaches_halfOpen (clock : Time) (count : Nat)
    (room : count < config.maxRequests) (below : count + 1 < config.successThreshold) :
    ∃ ops system, (machine config).run (new clock) ops = some system ∧ system.calls = [] ∧
      system.breaker.state = .stateHalfOpen ∧ system.breaker.halfOpenRequests = count + 1 ∧
      system.breaker.halfOpenSuccesses = count + 1 := by
  induction count with
  | zero =>
    obtain ⟨elapsed, isOver⟩ := exists_elapsed config clock clock
    let tripped : System :=
      { (new clock).setState .stateOpen with clock := clock + elapsed }
    have ran : (machine config).run (new clock) [.trip, .tick elapsed] = some tripped := rfl
    obtain ⟨after, succeeds, emptyAfter, credited⟩ :=
      @succeedsAlone_of_open config tripped rfl rfl isOver
    obtain ⟨ops, ranAfter⟩ := succeeds.run
    have notEnough : ¬ config.successThreshold ≤ 0 + 1 := Nat.not_le.mpr below
    exact ⟨[.trip, .tick elapsed] ++ ops, after,
      by rw [Machine.run_append, ran, Option.bind_some, ranAfter], emptyAfter,
      (if_neg notEnough).mp credited⟩
  | succ count ih =>
    obtain ⟨before, system, ran, empty, state, requests, successes⟩ :=
      ih (Nat.lt_of_succ_lt room) (Nat.lt_of_succ_lt below)
    obtain ⟨after, succeeds, emptyAfter, credited⟩ :=
      succeedsAlone_of_halfOpen empty state (requests ▸ room)
    obtain ⟨ops, ranAfter⟩ := succeeds.run
    unfold Credited at credited
    rw [successes, requests, if_neg (Nat.not_le.mpr below)] at credited
    exact ⟨before ++ ops, after,
      by rw [Machine.run_append, ran, Option.bind_some, ranAfter], emptyAfter, credited⟩

/-- Where fewer calls are let through than successes are needed, the breaker gets stuck. -/
theorem stuck_of_lt (positive : 0 < config.maxRequests)
    (short : config.maxRequests < config.successThreshold) (clock : Time) :
    ∃ ops system, (machine config).run (new clock) ops = some system ∧ system.calls = [] ∧
      ∀ elapsed : Nat, ¬ Admits config { system with clock := system.clock + elapsed } := by
  obtain ⟨ops, system, ran, empty, state, requests, _⟩ :=
    @reaches_halfOpen config clock (config.maxRequests - 1) (by omega) (by omega)
  exact ⟨ops, system, ran, empty,
    fun elapsed => not_admits_of_full empty state (requests ▸ by omega)⟩

theorem Config.withDefaults_positive (config : Config) :
    0 < config.withDefaults.successThreshold ∧ 0 < config.withDefaults.maxRequests := by
  unfold Config.withDefaults
  constructor <;> simp only <;> split <;> omega

/-- The breaker never gets stuck exactly if a half-open one lets as many calls through as it needs
successes to close. -/
theorem neverStuck_iff (config : Config) :
    NeverStuck config.withDefaults ↔
      config.withDefaults.successThreshold ≤ config.withDefaults.maxRequests := by
  obtain ⟨positiveThreshold, positiveRequests⟩ := config.withDefaults_positive
  constructor
  · intro neverStuck
    by_contra short
    obtain ⟨ops, system, ran, empty, refuses⟩ :=
      stuck_of_lt positiveRequests (Nat.lt_of_not_le short) 0
    obtain ⟨⟨elapsed, admits⟩, _⟩ :=
      neverStuck 0 ops system ⟨ops, List.prefix_rfl, ran⟩ empty
    exact refuses elapsed admits
  · exact neverStuck_of_room positiveThreshold

/-- No field is set but the comparison with a failure threshold of one half. -/
def unsetConfig : Config where
  rateReached := fun counts => decide (0 < counts.requests ∧ counts.requests ≤ 2 * counts.failures)
  successThreshold := 0
  timeout := 0
  minRequests := 0
  maxRequests := 0
  shouldTrip := none
  timeoutFits := ⟨by decide, by decide⟩

/-- A trip, the default timeout, and a call that succeeds. -/
def probe : List Op :=
  [[.trip, .tick 30000000000, .call, .advance 0, .advance 0, .finish 0 .success],
    advances 4 0].flatten

/-- With the defaults of `New` one success after the timeout fills the half-open counter, and two
more are needed: every later call is refused. -/
theorem stuck_unsetConfig :
    ∃ system, (machine unsetConfig.withDefaults).run (new 0) probe = some system ∧
      system.calls = [] ∧ system.breaker.state = .stateHalfOpen ∧
      ∀ elapsed : Nat,
        ¬ Admits unsetConfig.withDefaults { system with clock := system.clock + elapsed } := by
  have ran : ((machine unsetConfig.withDefaults).run (new 0) probe).map
      (fun system => (system.calls, system.breaker.state, system.breaker.halfOpenRequests)) =
      some ([], .stateHalfOpen, 1) := by decide +kernel
  obtain ⟨system, ranEq, result⟩ := Option.map_eq_some_iff.mp ran
  simp only [Prod.mk.injEq] at result
  obtain ⟨empty, state, requests⟩ := result
  exact ⟨system, ranEq, empty, state,
    fun elapsed => not_admits_of_full empty state (Nat.le_of_eq requests.symm)⟩

/-! ## How many functions run at the same time -/

/-- A call that came to a breaker that was not closed and runs its function. -/
def Call.probes (call : Call) : Bool :=
  decide (call.state ≠ .stateClosed) && decide (call.phase = .executing)

/-- A half-open breaker that has counted no call yet lets one more call through, whatever functions
are running. -/
theorem run_call_beside (positive : 0 < config.maxRequests)
    (state : system.breaker.state = .stateHalfOpen) (uncounted : system.breaker.halfOpenRequests = 0) :
    (machine config).run system [.call, .advance system.calls.length] =
      some { system with
        calls := system.calls ++ [⟨.stateHalfOpen, .executing, system.epoch, system.epoch⟩] } := by
  have notFull : ¬config.maxRequests ≤ 0 := Nat.not_le.mpr positive
  simp [Machine.run, machine, step, System.begin, state, advance, uncounted, notFull,
    System.proceed, System.admitted, System.epoch]

/-- As long as no function has returned, any number of calls gets through a half-open breaker. -/
theorem run_calls_beside (positive : 0 < config.maxRequests) (count : Nat)
    (state : system.breaker.state = .stateHalfOpen) (uncounted : system.breaker.halfOpenRequests = 0) :
    ∃ ops after, (machine config).run system ops = some after ∧
      after.calls.countP Call.probes = system.calls.countP Call.probes + count := by
  induction count generalizing system with
  | zero => exact ⟨[], system, rfl, rfl⟩
  | succ count ih =>
    have ran := run_call_beside positive state uncounted
    obtain ⟨ops, after, ranAfter, probes⟩ := @ih
      { system with
        calls := system.calls ++ [⟨.stateHalfOpen, .executing, system.epoch, system.epoch⟩] }
      state uncounted
    refine ⟨_ ++ ops, after, by rw [Machine.run_append, ran, Option.bind_some, ranAfter], ?_⟩
    rw [probes, List.countP_append]
    have one : [(⟨.stateHalfOpen, .executing, system.epoch, system.epoch⟩ : Call)].countP
        Call.probes = 1 := rfl
    omega

/-- For every configuration there is a run in which more functions of calls that found the breaker
open or half-open run at the same time than `MaxRequests` says: the counter is raised only after a
function has returned. -/
theorem executing_exceeds (config : Config) (clock : Time) :
    ∃ ops system, (machine config.withDefaults).run (new clock) ops = some system ∧
      system.calls.countP Call.probes = config.withDefaults.maxRequests + 1 := by
  obtain ⟨elapsed, isOver⟩ := exists_elapsed config.withDefaults clock clock
  let tripped : System := { (new clock).setState .stateOpen with clock := clock + elapsed }
  have ran : (machine config.withDefaults).run (new clock) [.trip, .tick elapsed] = some tripped :=
    rfl
  -- the first call makes the breaker half-open, and the others come before it has returned
  have first := @run_call_of_open config.withDefaults tripped rfl rfl isOver
  obtain ⟨ops, system, others, probes⟩ := @run_calls_beside config.withDefaults
    { tripped.setState .stateHalfOpen with
      calls := [⟨.stateOpen, .executing, tripped.epoch, tripped.epoch + 1⟩] }
    config.withDefaults_positive.2 config.withDefaults.maxRequests rfl rfl
  refine ⟨[.trip, .tick elapsed] ++ ([.call, .advance 0, .advance 0] ++ ops), system, ?_,
    probes.trans (Nat.add_comm _ _)⟩
  rw [Machine.run_append, ran, Option.bind_some, Machine.run_append, first, Option.bind_some, others]

/-- One failure opens the breaker for five nanoseconds, and one success closes it. -/
def eagerConfig : Config where
  rateReached := fun _ => false
  successThreshold := 1
  timeout := 5
  minRequests := 1
  maxRequests := 1
  shouldTrip := some fun _ => true
  timeoutFits := inInt64_five

/-- A call fails, the breaker opens, and the timeout passes. -/
def opening : List Op := [[.call, .finish 0 .failure], advances 9 0, [.tick 5]].flatten

/-- The counter is raised after the function has returned: a second call comes while the function
of the first runs, and both run beside each other with a limit of one. -/
theorem executing_two_of_limit_one :
    ((machine eagerConfig.withDefaults).run (new 0)
      (opening ++ [.call, .advance 0, .advance 0, .call, .advance 1])).map
      (fun system => (system.calls.countP Call.probes, eagerConfig.withDefaults.maxRequests)) =
      some (2, 1) := by decide +kernel

end Plumego.Resilience
