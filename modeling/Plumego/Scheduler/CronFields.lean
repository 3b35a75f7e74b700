/-
Module: Plumego.Scheduler.CronFields
Purpose: The parser of a cron field for any bounds: the loops run for a number of rounds that is a
  parameter, so that it can be said whether they end.
Trusted boundary: as for the cron expressions. Where a slice is too large to be made, the parser
  does not return.
Main exports: forValues, buildRangeWithin, parsePartWithin, parsePartsWithin, parseCronFieldWithin
-/
import Plumego.Go.Slices
import Plumego.Scheduler.Cron

namespace Plumego.Scheduler

open Plumego.Go

/-- `for v := v; v <= last; v += step` with the values it meets, if it ends within some rounds. -/
def forValues (last step : Int) : Nat → Int → Option (List Int)
  | 0, _ => none
  | rounds + 1, v =>
    if v ≤ last then (forValues last step rounds (wrapInt64 (v + step))).map (v :: ·) else some []

/-- `buildRange(min, max, 1)`. -/
def buildRangeWithin (rounds : Nat) (min max : Int) : Option (List Int) :=
  if canMake 8 (wrapInt64 (wrapInt64 (max - min) + 1)) then forValues max 1 rounds min else none

/-- The values that a part adds. -/
def parsePartWithin (rounds : Nat) (part : Bytes) (min max : Int) :
    Option (Except GoError (List Int)) :=
  match partRange part min max with
  | .error failure => some (.error failure)
  | .ok (start, stop, step) => (forValues stop step rounds start).map .ok

/-- The loop over the parts. -/
def parsePartsWithin (rounds : Nat) (min max : Int) : List Bytes → Option (Except GoError (List Int))
  | [] => some (.ok [])
  | part :: parts =>
    (parsePartWithin rounds part min max).bind fun result =>
      match result with
      | .error failure => some (.error failure)
      | .ok values =>
        (parsePartsWithin rounds min max parts).map fun later => later.map (values ++ ·)

/-- `parseCronField`. -/
def parseCronFieldWithin (rounds : Nat) (field : Bytes) (min max : Int) :
    Option (Except GoError (List Int)) :=
  if field = ascii "*" then (buildRangeWithin rounds min max).map .ok
  else
    (parsePartsWithin rounds min max (split 0x2c field)).map fun result =>
      result.map fun values => values.dedup.insertionSort (· ≤ ·)

end Plumego.Scheduler
