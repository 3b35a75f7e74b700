/-
Module: Plumego.Scheduler.CronZones
Purpose: The search for the next time of a cron expression in a location whose offset from UTC
  changes.
Trusted boundary: a location is a list of offset changes in order. `time.Date` takes the offset in
  force at the reading of the wall clock taken as UTC, or, where the instant it gets is not in that
  offset's interval, the one in force at that instant. Instants and offsets are whole seconds.
Main exports: Change, Location, Zone, lookup, wall, date, jumpIn, nextIn
-/
import Plumego.Scheduler.Cron

namespace Plumego.Scheduler

open Plumego.Go Plumego.Lib

/-- From an instant on another offset is in force. -/
structure Change where
  since : Int
  offset : Int
deriving DecidableEq, Repr

/-- `time.Location`: the offset before all changes, and the changes in order. -/
structure Location where
  first : Int
  changes : List Change
  ordered : changes.Pairwise fun earlier later => earlier.since < later.since

/-- An offset with the interval where it is in force. -/
structure Zone where
  offset : Int
  start : Option Int
  stop : Option Int
deriving DecidableEq, Repr

/-- The instant is in the interval. -/
def Zone.holds (zone : Zone) (instant : Int) : Bool :=
  (zone.start.all fun start => start ≤ instant) && zone.stop.all fun stop => instant < stop

/-- The zone at an instant, from the changes that are left. -/
def lookupFrom (offset : Int) (start : Option Int) (instant : Int) : List Change → Zone
  | [] => ⟨offset, start, none⟩
  | change :: rest =>
    if instant < change.since then ⟨offset, start, some change.since⟩
    else lookupFrom change.offset (some change.since) instant rest

namespace Location

variable (location : Location)

/-- `Location.lookup`. -/
def lookup (instant : Int) : Zone := lookupFrom location.first none instant location.changes

/-- The reading of the wall clock at an instant, as the second of UTC with the same fields. -/
def wall (instant : Int) : Int := instant + (location.lookup instant).offset

/-- The end of `time.Date`: the instant for a reading of the wall clock. -/
def date (reading : Int) : Int :=
  let zone := location.lookup reading
  let instant := reading - zone.offset
  if zone.holds instant then instant else reading - (location.lookup instant).offset

end Location

/-- The body of the loop of `Next`: where to go on, or nothing where it returns. Every branch makes
one `time.Date` of fields of the wall clock, but the one for the day, which adds a day to what
midnight has become. -/
def jumpIn (location : Location) (spec : CronSpec) (instant : Int) : Option Int :=
  let reading := location.wall instant
  if containsInt spec.months (monthUTC reading) = true ∧ dayMatch spec reading = false then
    let midnight := location.date
      (dateUTC (yearUTC reading) (monthUTC reading) (dayUTC reading) 0 0 0)
    some (location.date (addDate (location.wall midnight) 0 0 1))
  else (jump spec reading).map location.date

/-- `Next` in a location. -/
def nextIn (location : Location) (spec : CronSpec) (after : Time) : Time :=
  if 0 < spec.interval then after + spec.interval
  else
    match Lib.search (jumpIn location spec) maxRounds (after / 1000000000 + 1) with
    | none => zeroTime
    | some time => time * 1000000000

end Plumego.Scheduler
