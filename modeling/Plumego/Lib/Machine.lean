/-
Module: Plumego.Lib.Machine
Purpose: Deterministic machines that take one operation at a time, give an
  output for each and may stop; the invariant rule and the lockstep simulation
  rule over whole runs; the steps of a run with the states around them.
Trusted boundary: none
Main exports: Machine, Machine.run_invariant, Machine.run_total, Machine.reaches_invariant,
  Machine.holds_iff_meets, Machine.trace_eq_of_simulation, Machine.history_invariant
-/
import Mathlib.Data.List.Infix

namespace Plumego.Lib

/-- A machine: one step per operation, `none` where it stops. -/
structure Machine (S Op Out : Type) where
  step : S → Op → Option (S × Out)

namespace Machine

variable {S T Op Out : Type}

/-- The state after a run, unless the machine stopped. -/
def run (machine : Machine S Op Out) : S → List Op → Option S
  | state, [] => some state
  | state, op :: ops =>
    match machine.step state op with
    | none => none
    | some (next, _) => machine.run next ops

/-- The outputs of a run, up to where the machine stops. -/
def trace (machine : Machine S Op Out) : S → List Op → List Out
  | _, [] => []
  | state, op :: ops =>
    match machine.step state op with
    | none => []
    | some (next, out) => out :: machine.trace next ops

variable {machine : Machine S Op Out} {other : Machine T Op Out}

theorem run_cons {state : S} {op : Op} {ops : List Op} :
    machine.run state (op :: ops) =
      (machine.step state op).bind fun result => machine.run result.1 ops := by
  cases stepEq : machine.step state op with
  | none => simp [run, stepEq]
  | some result => simp [run, stepEq]

theorem run_append (state : S) (first second : List Op) :
    machine.run state (first ++ second) =
      (machine.run state first).bind fun middle => machine.run middle second := by
  induction first generalizing state with
  | nil => rfl
  | cons op ops ih =>
    rw [List.cons_append, run_cons, run_cons]
    cases machine.step state op with
    | none => rfl
    | some result => exact ih result.1

/-- Invariant rule: what every allowed step keeps holds after every run of
allowed operations. -/
theorem run_invariant {invariant : S → Prop} {allowed : Op → Prop}
    (keeps : ∀ state op next out, allowed op → invariant state →
      machine.step state op = some (next, out) → invariant next)
    {state final : S} {ops : List Op} (initial : invariant state)
    (allAllowed : ∀ op ∈ ops, allowed op)
    (ran : machine.run state ops = some final) : invariant final := by
  induction ops generalizing state with
  | nil =>
    rw [run, Option.some.injEq] at ran
    exact ran ▸ initial
  | cons op ops ih =>
    rw [run_cons] at ran
    cases stepEq : machine.step state op with
    | none => simp [stepEq] at ran
    | some result =>
      rw [stepEq, Option.bind_some] at ran
      exact ih
        (keeps state op result.1 result.2 (allAllowed op List.mem_cons_self) initial
          stepEq)
        (List.forall_mem_of_forall_mem_cons allAllowed) ran

/-- Where every step is defined and keeps the invariant, every run is defined and ends
with it. -/
theorem run_total {invariant : S → Prop}
    (keeps : ∀ state op, invariant state →
      ∃ next out, machine.step state op = some (next, out) ∧ invariant next)
    {state : S} (initial : invariant state) (ops : List Op) :
    ∃ final, machine.run state ops = some final ∧ invariant final := by
  induction ops generalizing state with
  | nil => exact ⟨state, rfl, initial⟩
  | cons op ops ih =>
    obtain ⟨next, out, stepEq, kept⟩ := keeps state op initial
    obtain ⟨final, ran, holds⟩ := ih kept
    exact ⟨final, by rw [run_cons, stepEq, Option.bind_some]; exact ran, holds⟩

/-- Every step of a run meets a condition on the state before it and the
operation. -/
def Meets (machine : Machine S Op Out) (condition : S → Op → Prop) : S → List Op → Prop
  | _, [] => True
  | state, op :: ops =>
    condition state op ∧
      match machine.step state op with
      | none => True
      | some (next, _) => machine.Meets condition next ops

instance decidableMeets (machine : Machine S Op Out) (condition : S → Op → Prop)
    [∀ state op, Decidable (condition state op)] :
    (state : S) → (ops : List Op) → Decidable (machine.Meets condition state ops)
  | _, [] => inferInstanceAs (Decidable True)
  | state, op :: ops =>
    have : Decidable (match machine.step state op with
        | none => True
        | some (next, _) => machine.Meets condition next ops) :=
      match machine.step state op with
      | none => inferInstanceAs (Decidable True)
      | some (next, _) => decidableMeets machine condition next ops
    inferInstanceAs (Decidable (condition state op ∧ _))

theorem meets_cons {condition : S → Op → Prop} {state next : S} {op : Op} {ops : List Op}
    {out : Out} (stepEq : machine.step state op = some (next, out)) :
    machine.Meets condition state (op :: ops) ↔
      condition state op ∧ machine.Meets condition next ops := by
  simp [Meets, stepEq]

/-- A condition that the operations of a run meet in every state. -/
theorem meets_of_forall {condition : S → Op → Prop} {ops : List Op}
    (always : ∀ op ∈ ops, ∀ state, condition state op) (state : S) :
    machine.Meets condition state ops := by
  induction ops generalizing state with
  | nil => trivial
  | cons op ops ih =>
    refine ⟨always op List.mem_cons_self state, ?_⟩
    cases machine.step state op with
    | none => trivial
    | some result =>
      exact ih
        (List.forall_mem_of_forall_mem_cons always) result.1

/-- A state that a run passes through. -/
def Reaches (machine : Machine S Op Out) (start : S) (ops : List Op) (state : S) : Prop :=
  ∃ done, done <+: ops ∧ machine.run start done = some state

/-- Where every step is defined and keeps the invariant, every run is defined and every state
it goes through has the invariant. -/
theorem reaches_total {invariant : S → Prop}
    (keeps : ∀ state op, invariant state →
      ∃ next out, machine.step state op = some (next, out) ∧ invariant next)
    {start : S} (initial : invariant start) (ops : List Op) :
    (machine.run start ops).isSome = true ∧
      ∀ state, machine.Reaches start ops state → invariant state := by
  refine ⟨?_, fun state reached => ?_⟩
  · obtain ⟨final, ran, -⟩ := run_total keeps initial ops
    rw [ran, Option.isSome_some]
  · obtain ⟨done, -, ran⟩ := reached
    obtain ⟨final, ranToo, holds⟩ := run_total keeps initial done
    exact Option.some.inj (ran.symm.trans ranToo) ▸ holds

theorem reaches_cons {start next state : S} {op : Op} {ops : List Op} {out : Out}
    (stepEq : machine.step start op = some (next, out)) :
    machine.Reaches start (op :: ops) state ↔
      state = start ∨ machine.Reaches next ops state := by
  constructor
  · rintro ⟨done, isPrefix, ran⟩
    cases done with
    | nil =>
      rw [run, Option.some.injEq] at ran
      exact Or.inl ran.symm
    | cons first rest =>
      rw [List.cons_prefix_cons] at isPrefix
      obtain ⟨rfl, isPrefix⟩ := isPrefix
      rw [run_cons, stepEq, Option.bind_some] at ran
      exact Or.inr ⟨rest, isPrefix, ran⟩
  · rintro (rfl | ⟨done, isPrefix, ran⟩)
    · exact ⟨[], List.nil_prefix, rfl⟩
    · refine ⟨op :: done, List.cons_prefix_cons.mpr ⟨rfl, isPrefix⟩, ?_⟩
      rw [run_cons, stepEq, Option.bind_some]
      exact ran

/-- Invariant rule with a condition: what every step that meets the condition
keeps holds in every state of a run whose steps meet it. -/
theorem reaches_invariant {invariant : S → Prop} {condition : S → Op → Prop}
    (keeps : ∀ state op next out, invariant state → condition state op →
      machine.step state op = some (next, out) → invariant next)
    {start state : S} {ops : List Op} (initial : invariant start)
    (meets : machine.Meets condition start ops)
    (reached : machine.Reaches start ops state) : invariant state := by
  induction ops generalizing start with
  | nil =>
    obtain ⟨done, isPrefix, ran⟩ := reached
    rw [List.prefix_nil] at isPrefix
    subst isPrefix
    rw [run, Option.some.injEq] at ran
    exact ran ▸ initial
  | cons op ops ih =>
    cases stepEq : machine.step start op with
    | none =>
      obtain ⟨done, isPrefix, ran⟩ := reached
      cases done with
      | nil =>
        rw [run, Option.some.injEq] at ran
        exact ran ▸ initial
      | cons first rest =>
        rw [List.cons_prefix_cons] at isPrefix
        rw [isPrefix.1, run_cons, stepEq] at ran
        simp at ran
    | some result =>
      obtain ⟨next, out⟩ := result
      rw [meets_cons stepEq] at meets
      rcases (reaches_cons stepEq).mp reached with rfl | later
      · exact initial
      · exact ih (keeps start op next out initial meets.1 stepEq)
          meets.2 later

theorem meets_and {first second : S → Op → Prop} {start : S} {ops : List Op} :
    machine.Meets (fun state op => first state op ∧ second state op) start ops ↔
      machine.Meets first start ops ∧ machine.Meets second start ops := by
  induction ops generalizing start with
  | nil => exact ⟨fun _ => ⟨trivial, trivial⟩, fun _ => trivial⟩
  | cons op ops ih =>
    rw [Meets, Meets, Meets]
    cases machine.step start op with
    | none => simp
    | some result =>
      simp only [ih]
      exact and_and_and_comm

/-- Exact condition rule, for runs that the machine goes through and whose steps are in a domain:
where a step from an invariant state keeps the invariant if it meets the condition and leaves
the property otherwise, a run has the property throughout exactly if all its steps meet the
condition. -/
theorem holds_iff_meets_within {invariant holds : S → Prop} {domain condition : S → Op → Prop}
    (sound : ∀ state, invariant state → holds state)
    (keeps : ∀ state op next out, invariant state → domain state op → condition state op →
      machine.step state op = some (next, out) → invariant next)
    (breaks : ∀ state op next out, invariant state → domain state op → ¬ condition state op →
      machine.step state op = some (next, out) → ¬ holds next)
    {start : S} {ops : List Op} (initial : invariant start)
    (inDomain : machine.Meets domain start ops) (ran : machine.run start ops ≠ none) :
    (∀ state, machine.Reaches start ops state → holds state) ↔
      machine.Meets condition start ops := by
  constructor
  · intro throughout
    induction ops generalizing start with
    | nil => trivial
    | cons op ops ih =>
      cases stepEq : machine.step start op with
      | none =>
        rw [run_cons, stepEq] at ran
        exact absurd rfl ran
      | some result =>
        obtain ⟨next, out⟩ := result
        rw [run_cons, stepEq, Option.bind_some] at ran
        rw [meets_cons stepEq] at inDomain
        have fromNext : ∀ state, machine.Reaches next ops state → holds state :=
          fun state reached => throughout state ((reaches_cons stepEq).mpr (Or.inr reached))
        have met : condition start op := by
          by_contra failed
          exact breaks start op next out initial inDomain.1 failed stepEq
            (fromNext next ⟨[], List.nil_prefix, rfl⟩)
        exact (meets_cons stepEq).mpr ⟨met, ih
          (keeps start op next out initial inDomain.1 met stepEq) inDomain.2 ran fromNext⟩
  · intro meets state reached
    refine sound state (reaches_invariant ?_ initial (meets_and.mpr ⟨inDomain, meets⟩) reached)
    intro before op next out held both stepEq
    exact keeps before op next out held both.1 both.2 stepEq

/-- Exact condition rule for a machine that never stops. -/
theorem holds_iff_meets {invariant holds : S → Prop} {condition : S → Op → Prop}
    (total : ∀ state op, ∃ next out, machine.step state op = some (next, out))
    (sound : ∀ state, invariant state → holds state)
    (keeps : ∀ state op next out, invariant state → condition state op →
      machine.step state op = some (next, out) → invariant next)
    (breaks : ∀ state op next out, invariant state → ¬ condition state op →
      machine.step state op = some (next, out) → ¬ holds next)
    {start : S} {ops : List Op} (initial : invariant start) :
    (∀ state, machine.Reaches start ops state → holds state) ↔
      machine.Meets condition start ops := by
  have everywhere : machine.Meets (fun _ _ => True) start ops := by
    clear initial
    induction ops generalizing start with
    | nil => trivial
    | cons op ops ih =>
      obtain ⟨next, out, stepEq⟩ := total start op
      exact (meets_cons stepEq).mpr ⟨trivial, ih⟩
  have steps : ∀ state op, True → ∃ next out, machine.step state op = some (next, out) ∧ True :=
    fun state op _ => (total state op).imp fun next found => found.imp fun out stepEq => ⟨stepEq, trivial⟩
  obtain ⟨final, ran, _⟩ := run_total steps trivial ops
  exact holds_iff_meets_within sound (fun state op next out held _ => keeps state op next out held)
    (fun state op next out held _ => breaks state op next out held) initial everywhere
    (by rw [ran]; exact Option.some_ne_none final)

/-- One step of a lockstep simulation: both machines stop, or both go on with
the same output to related states. -/
def StepsTogether (machine : Machine S Op Out) (other : Machine T Op Out)
    (related : S → T → Prop) (state : S) (partner : T) (op : Op) : Prop :=
  (machine.step state op = none ∧ other.step partner op = none) ∨
    ∃ next nextPartner out, machine.step state op = some (next, out) ∧
      other.step partner op = some (nextPartner, out) ∧ related next nextPartner

/-- Lockstep simulation rule: machines that step together give the same
outputs over every run of allowed operations. -/
theorem trace_eq_of_simulation {related : S → T → Prop} {allowed : Op → Prop}
    (steps : ∀ state partner op, allowed op → related state partner →
      StepsTogether machine other related state partner op)
    {state : S} {partner : T} {ops : List Op} (initial : related state partner)
    (allAllowed : ∀ op ∈ ops, allowed op) :
    machine.trace state ops = other.trace partner ops := by
  induction ops generalizing state partner with
  | nil => rfl
  | cons op ops ih =>
    rcases steps state partner op (allAllowed op List.mem_cons_self) initial with
      ⟨stopped, otherStopped⟩ | ⟨next, nextPartner, out, stepEq, otherEq, again⟩
    · simp [trace, stopped, otherStopped]
    · have rest := ih again
        (List.forall_mem_of_forall_mem_cons allAllowed)
      simp [trace, stepEq, otherEq, rest]

end Machine

/-! ## The steps of a run -/

/-- One step of a machine. -/
structure Step (S Op Out : Type) where
  before : S
  op : Op
  out : Out
  after : S

namespace Machine

variable {S Op Out : Type}

/-- The steps of a run, up to where the machine stops. -/
def history (machine : Machine S Op Out) : S → List Op → List (Step S Op Out)
  | _, [] => []
  | state, op :: ops =>
    match machine.step state op with
    | none => []
    | some (next, out) => ⟨state, op, out, next⟩ :: machine.history next ops

variable {machine : Machine S Op Out}

theorem history_cons {state next : S} {op : Op} {out : Out} (ops : List Op)
    (stepEq : machine.step state op = some (next, out)) :
    machine.history state (op :: ops) = ⟨state, op, out, next⟩ :: machine.history next ops := by
  simp [history, stepEq]

/-- A history with a first step begins with a step of the machine. -/
theorem history_eq_cons {state : S} {ops : List Op} {step : Step S Op Out}
    {later : List (Step S Op Out)} (split : machine.history state ops = step :: later) :
    step.before = state ∧ machine.step step.before step.op = some (step.after, step.out) ∧
      ∃ rest, later = machine.history step.after rest := by
  cases ops with
  | nil => cases split
  | cons op rest =>
    cases stepEq : machine.step state op with
    | none => simp [history, stepEq] at split
    | some result =>
      obtain ⟨next, out⟩ := result
      rw [history_cons rest stepEq, List.cons.injEq] at split
      obtain ⟨rfl, rfl⟩ := split
      exact ⟨rfl, stepEq, rest, rfl⟩

theorem history_invariant_from {invariant : List (Step S Op Out) → S → Prop}
    (keeps : ∀ past state op next out, invariant past state →
      machine.step state op = some (next, out) →
      invariant (past ++ [⟨state, op, out, next⟩]) next)
    {start : S} {past : List (Step S Op Out)} (initial : invariant past start)
    {ops : List Op} {front back : List (Step S Op Out)} {step : Step S Op Out}
    (split : machine.history start ops = front ++ step :: back) :
    invariant (past ++ front) step.before ∧
      machine.step step.before step.op = some (step.after, step.out) := by
  induction front generalizing start past ops with
  | nil =>
    obtain ⟨rfl, stepEq, -⟩ := history_eq_cons split
    rw [List.append_nil]
    exact ⟨initial, stepEq⟩
  | cons first front ih =>
    obtain ⟨rfl, stepEq, rest, later⟩ := history_eq_cons split
    have kept := keeps past first.before first.op first.after first.out initial stepEq
    have result := ih kept later.symm
    rwa [List.append_assoc] at result

/-- Invariant rule over histories: a relation between the steps so far and the
state, kept by every step, holds before every step of a run. -/
theorem history_invariant {invariant : List (Step S Op Out) → S → Prop}
    (keeps : ∀ past state op next out, invariant past state →
      machine.step state op = some (next, out) →
      invariant (past ++ [⟨state, op, out, next⟩]) next)
    {start : S} (initial : invariant [] start) {ops : List Op}
    {front back : List (Step S Op Out)} {step : Step S Op Out}
    (split : machine.history start ops = front ++ step :: back) :
    invariant front step.before ∧
      machine.step step.before step.op = some (step.after, step.out) :=
  history_invariant_from keeps initial split

/-- What holds at the start and is kept by the steps in front of a step holds
before it. -/
theorem history_keeps (holds : S → Prop) {start : S} (initial : holds start) {ops : List Op}
    {front back : List (Step S Op Out)} {step : Step S Op Out}
    (split : machine.history start ops = front ++ step :: back)
    (keeps : ∀ earlier ∈ front, holds earlier.before → holds earlier.after) :
    holds step.before := by
  induction front generalizing start ops with
  | nil =>
    obtain ⟨rfl, -, -⟩ := history_eq_cons split
    exact initial
  | cons first front ih =>
    obtain ⟨rfl, -, rest, later⟩ := history_eq_cons split
    apply ih (keeps first List.mem_cons_self initial) later.symm
    intro earlier member
    exact keeps earlier (List.mem_cons_of_mem first member)

/-- What comes after a step is the history from the state it leaves. -/
theorem history_after {start : S} {ops : List Op} {front back : List (Step S Op Out)}
    {step : Step S Op Out} (split : machine.history start ops = front ++ step :: back) :
    ∃ rest, back = machine.history step.after rest := by
  induction front generalizing start ops with
  | nil =>
    obtain ⟨-, -, later⟩ := history_eq_cons split
    exact later
  | cons first front ih =>
    obtain ⟨-, -, rest, later⟩ := history_eq_cons split
    exact ih later.symm

end Machine

end Plumego.Lib
