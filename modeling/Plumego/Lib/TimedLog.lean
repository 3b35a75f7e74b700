/-
Module: Plumego.Lib.TimedLog
Purpose: Logs of amounts with their times, oldest first: what stands in them after a time, and when
  a running total reaches a number.
Trusted boundary: none.
Main exports: Entry, weight, since, Ordered, reachedAt, reachedAt_le_iff
-/
import Mathlib.Data.List.Basic
import Mathlib.Tactic.Linarith

namespace Plumego.Lib

namespace TimedLog

/-- An amount with its time. -/
structure Entry where
  time : Int
  amount : Int
deriving DecidableEq, Repr

/-- The sum of the amounts. -/
def weight (log : List Entry) : Int := (log.map Entry.amount).sum

/-- The entries after a time. -/
def since (cutoff : Int) (log : List Entry) : List Entry :=
  log.filter fun entry => decide (cutoff < entry.time)

/-- Oldest first. -/
def Ordered (log : List Entry) : Prop := log.Pairwise fun earlier later => earlier.time ≤ later.time

/-- No amount is negative. -/
def Nonnegative (log : List Entry) : Prop := ∀ entry ∈ log, 0 ≤ entry.amount

/-- The time of the entry at which the running total reaches a number, or of the last entry. -/
def reachedAt (needed : Int) : Int → Int → List Entry → Int
  | _, latest, [] => latest
  | sum, _, entry :: rest =>
    if needed ≤ sum + entry.amount then entry.time
    else reachedAt needed (sum + entry.amount) entry.time rest

variable {log : List Entry} {cutoff other : Int}

@[simp] theorem weight_nil : weight [] = 0 := rfl

@[simp] theorem weight_cons (entry : Entry) (log : List Entry) :
    weight (entry :: log) = entry.amount + weight log := by
  simp [weight]

@[simp] theorem weight_append (first second : List Entry) :
    weight (first ++ second) = weight first + weight second := by
  simp [weight]

@[simp] theorem since_nil : since cutoff [] = [] := rfl

theorem since_append (first second : List Entry) :
    since cutoff (first ++ second) = since cutoff first ++ since cutoff second :=
  List.filter_append ..

theorem since_of_after (after : ∀ entry ∈ log, cutoff < entry.time) : since cutoff log = log :=
  List.filter_eq_self.mpr fun entry member => decide_eq_true (after entry member)

theorem since_of_le (past : ∀ entry ∈ log, entry.time ≤ cutoff) : since cutoff log = [] :=
  List.filter_eq_nil_iff.mpr fun entry member => by simpa using past entry member

/-- A later cut makes an earlier one superfluous. -/
theorem since_since (later : cutoff ≤ other) : since other (since cutoff log) = since other log := by
  unfold since
  rw [List.filter_filter]
  refine List.filter_congr fun entry _ => ?_
  by_cases after : other < entry.time
  · simp [after, Int.lt_of_le_of_lt later after]
  · simp [after]

theorem mem_since {entry : Entry} : entry ∈ since cutoff log ↔ entry ∈ log ∧ cutoff < entry.time := by
  simp [since]

/-- Fewer entries of the same log weigh no more. -/
theorem weight_filter_le (nonnegative : Nonnegative log) (narrow wide : Entry → Bool)
    (narrower : ∀ entry ∈ log, narrow entry = true → wide entry = true) :
    weight (log.filter narrow) ≤ weight (log.filter wide) := by
  induction log with
  | nil => exact Int.le_refl _
  | cons entry rest ih =>
    have amount := nonnegative entry List.mem_cons_self
    have smaller := ih
      (List.forall_mem_of_forall_mem_cons nonnegative)
      (List.forall_mem_of_forall_mem_cons narrower)
    have head := narrower entry List.mem_cons_self
    cases isNarrow : narrow entry with
    | true => simp [isNarrow, head isNarrow, smaller]
    | false =>
      cases isWide : wide entry with
      | true => simp [isNarrow, isWide]; omega
      | false => simpa [isNarrow, isWide] using smaller

theorem weight_since_le (cutoff : Int) (nonnegative : Nonnegative log) :
    weight (since cutoff log) ≤ weight log := by
  have fewer := weight_filter_le nonnegative (fun entry => decide (cutoff < entry.time))
    (fun _ => true) (fun _ _ _ => rfl)
  rwa [List.filter_true] at fewer

/-- The running total reaches a number by the cut exactly if the entries up to it weigh as much. -/
theorem reachedAt_le_iff {needed sum latest : Int} (ordered : Ordered log)
    (nonnegative : Nonnegative log) (missing : sum < needed) (enough : needed ≤ sum + weight log) :
    reachedAt needed sum latest log ≤ cutoff ↔
      needed ≤ sum + (weight log - weight (since cutoff log)) := by
  induction log generalizing sum latest with
  | nil =>
    simp only [weight_nil] at enough
    omega
  | cons entry rest ih =>
    obtain ⟨first, restOrdered⟩ := List.pairwise_cons.mp ordered
    have restNonnegative : Nonnegative rest :=
      List.forall_mem_of_forall_mem_cons nonnegative
    have shrinks : weight (since cutoff rest) ≤ weight rest := weight_since_le cutoff restNonnegative
    have recursion := @ih (sum + entry.amount) entry.time restOrdered
      restNonnegative
    rw [weight_cons] at enough ⊢
    unfold reachedAt
    by_cases past : entry.time ≤ cutoff
    · have cut : since cutoff (entry :: rest) = since cutoff rest := by
        simp [since, Int.not_lt.mpr past]
      rw [cut]
      split
      · constructor <;> intro <;> omega
      · rw [recursion (by omega) (by omega)]
        constructor <;> intro <;> omega
    · -- Nothing of the log is up to the cut, so nothing of it counts.
      have restKept : since cutoff rest = rest :=
        since_of_after fun later member => by
          have after := first later member
          omega
      have kept : since cutoff (entry :: rest) = entry :: rest := by
        simp only [since, List.filter_cons, decide_eq_true (Int.not_le.mp past), if_true]
        exact congrArg _ restKept
      rw [kept, weight_cons]
      split
      · constructor <;> intro <;> omega
      · rw [recursion (by omega) (by omega), restKept]
        constructor <;> intro <;> omega

/-- In a log of single units the number itself says which entry it is. -/
theorem reachedAt_units {times : List Int} {needed sum latest : Int} (missing : sum < needed)
    {place : Nat} (isPlace : needed = sum + place + 1) (inside : place < times.length) :
    times[place]? = some (reachedAt needed sum latest (times.map fun time => ⟨time, 1⟩)) := by
  induction times generalizing sum latest place with
  | nil => cases inside
  | cons time rest ih =>
    cases place with
    | zero => simp [reachedAt, isPlace]
    | succ place =>
      have notYet : ¬ needed ≤ sum + 1 := by
        push_cast at isPlace
        omega
      simp only [List.map_cons, reachedAt, if_neg notYet, List.getElem?_cons_succ]
      refine ih (by omega) ?_ (Nat.lt_of_succ_lt_succ inside)
      push_cast at isPlace
      omega

end TimedLog

end Plumego.Lib
