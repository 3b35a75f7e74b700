/-
Module: Plumego.Scheduler.Cron
Purpose: Cron expressions: the parser of the fields and descriptors, and the search for the next
  time that matches.
Trusted boundary: expressions are in UTC. `time.ParseDuration` is a parameter. A map of ints is a
  list of the ints put into it, and `sort.SearchInts` is the first place with a value that is not
  less, which is what the binary search finds in a sorted list.
Main exports: CronSpec, parseCronField, parseCronSpec, containsInt, nextAllowed, jump, next
-/
import Mathlib.Data.List.Sort
import Plumego.Go.Calendar
import Plumego.Go.Numbers
import Plumego.Go.Utf8
import Plumego.Lib.Search

namespace Plumego.Scheduler

open Plumego.Go Plumego.Lib

def cronHourly : Bytes := ascii "0 * * * *"

def cronDaily : Bytes := ascii "0 0 * * *"

def cronWeekly : Bytes := ascii "0 0 * * 0"

def cronMonthly : Bytes := ascii "0 0 1 * *"

def cronYearly : Bytes := ascii "0 0 1 1 *"

def errInvalidCronExpr : GoError := .new "scheduler: invalid cron expression"

def errInvalidCronField : GoError := .new "scheduler: invalid cron field"

def errInvalidEveryDuration : GoError := .new "scheduler: invalid @every duration"

/-- `CronSpec`, in UTC. -/
structure CronSpec where
  seconds : List Int
  minutes : List Int
  hours : List Int
  dom : List Int
  months : List Int
  dow : List Int
  domStar : Bool
  dowStar : Bool
  interval : Int
deriving DecidableEq, Repr

/-! ## Parsing -/

/-- `for v := v; v <= last; v += step`, with the values it puts into the map. The sum is an int64;
no such loop over the values of a field is longer than the rounds it is given. -/
def stepLoop (last step : Int) : Nat → Int → List Int
  | 0, _ => []
  | rounds + 1, v => if v ≤ last then v :: stepLoop last step rounds (wrapInt64 (v + step)) else []

/-- `buildRange(min, max, 1)`. -/
def buildRange (min max : Int) : List Int := stepLoop max 1 128 min

/-- The part without its step, and the step. -/
def splitStep (part : Bytes) : Except GoError (Bytes × Int) :=
  if contains part (ascii "/") then
    match split 0x2f part with
    | [front, stepText] =>
      match parseInt64 stepText with
      | none => .error (.wrapf "%w: invalid step value" [] errInvalidCronField)
      | some step =>
        if step ≤ 0 then .error (.wrapf "%w: invalid step value" [] errInvalidCronField)
        else .ok (front, step)
    | _ => .error (.wrapf "%w: invalid step syntax" [] errInvalidCronField)
  else .ok (part, 1)

/-- The bounds that a part names. -/
def partBounds (part : Bytes) (min max : Int) : Except GoError (Int × Int) :=
  if part = [] ∨ part = ascii "*" then .ok (min, max)
  else if contains part (ascii "-") then
    match split 0x2d part with
    | [first, last] =>
      match parseInt64 first with
      | none => .error (.wrapf "%w: invalid range start" [] errInvalidCronField)
      | some start =>
        match parseInt64 last with
        | none => .error (.wrapf "%w: invalid range end" [] errInvalidCronField)
        | some stop => .ok (start, stop)
    | _ => .error (.wrapf "%w: invalid range syntax" [] errInvalidCronField)
  else
    match parseInt64 part with
    | none => .error (.wrapf "%w: invalid value" [] errInvalidCronField)
    | some value => .ok (value, value)

/-- One part of a field: its first and last value, and the step. -/
def partRange (part : Bytes) (min max : Int) : Except GoError (Int × Int × Int) :=
  if trimSpace part = [] then .error (.wrapf "%w: empty field" [] errInvalidCronField)
  else do
    let (front, step) ← splitStep (trimSpace part)
    let (start, stop) ← partBounds front min max
    if start < min ∨ max < stop ∨ stop < start then
      .error (.wrapf "%w: value out of bounds [%d-%d]" [.int min, .int max] errInvalidCronField)
    else .ok (start, stop, step)

/-- The values that a part adds. -/
def parsePart (part : Bytes) (min max : Int) : Except GoError (List Int) := do
  let (start, stop, step) ← partRange part min max
  .ok (stepLoop stop step 128 start)

/-- The loop over the parts. -/
def parseParts (min max : Int) : List Bytes → Except GoError (List Int)
  | [] => .ok []
  | part :: parts => do
      let values ← parsePart part min max
      let rest ← parseParts min max parts
      .ok (values ++ rest)

/-- `parseCronField`. -/
def parseCronField (field : Bytes) (min max : Int) : Except GoError (List Int) :=
  if field = ascii "*" then .ok (buildRange min max)
  else do
    let values ← parseParts min max (split 0x2c field)
    .ok (values.dedup.insertionSort (· ≤ ·))

/-- The expression that a descriptor stands for. -/
def expandDescriptor (expr : Bytes) : Bytes :=
  if expr = ascii "@hourly" then cronHourly
  else if expr = ascii "@daily" ∨ expr = ascii "@midnight" then cronDaily
  else if expr = ascii "@weekly" then cronWeekly
  else if expr = ascii "@monthly" then cronMonthly
  else if expr = ascii "@yearly" ∨ expr = ascii "@annually" then cronYearly
  else expr

/-- A field, with its name before the error. -/
def namedField (format : String) (field : Bytes) (min max : Int) : Except GoError (List Int) :=
  match parseCronField field min max with
  | .ok values => .ok values
  | .error failure => .error (.wrapf format [] failure)

/-- The fields from the minutes on. -/
def parseFields (seconds : List Int) (minute hour dom month dow : Bytes) : Except GoError CronSpec := do
  let minutes ← namedField "minute: %w" minute 0 59
  let hours ← namedField "hour: %w" hour 0 23
  let doms ← namedField "day-of-month: %w" dom 1 31
  let months ← namedField "month: %w" month 1 12
  let dows ← namedField "day-of-week: %w" dow 0 6
  .ok {
    seconds := seconds
    minutes := minutes
    hours := hours
    dom := doms
    months := months
    dow := dows
    domStar := trimSpace dom = ascii "*"
    dowStar := trimSpace dow = ascii "*"
    interval := 0 }

/-- `ParseCronSpec`. -/
def parseCronSpec (parseDuration : Bytes → Except GoError Int) (expr : Bytes) :
    Except GoError CronSpec :=
  if (ascii "@every ").isPrefixOf expr then
    match parseDuration (expr.drop (ascii "@every ").length) with
    | .error failure => .error (.wrapBoth "%w: %w" [] errInvalidEveryDuration failure)
    | .ok duration =>
      if duration ≤ 0 then .error (.wrapf "%w: must be positive" [] errInvalidEveryDuration)
      else .ok ⟨[], [], [], [], [], [], false, false, duration⟩
  else
    match fields (expandDescriptor expr) with
    | [minute, hour, dom, month, dow] => parseFields [0] minute hour dom month dow
    | [second, minute, hour, dom, month, dow] => do
        let seconds ← namedField "second: %w" second 0 59
        parseFields seconds minute hour dom month dow
    | others => .error (.wrapf "%w: expected 5 or 6 fields, got %d" [.int others.length]
        errInvalidCronExpr)

/-! ## The next time -/

/-- `sort.SearchInts`. -/
def searchInts (list : List Int) (value : Int) : Nat := list.findIdx fun item => value ≤ item

/-- `containsInt`. -/
def containsInt (list : List Int) (value : Int) : Bool :=
  list[searchInts list value]? = some value

/-- `nextAllowed`: the next value, and whether it is the first one of the next round. -/
def nextAllowed (current : Int) (allowed : List Int) : Int × Bool :=
  match allowed with
  | [] => (current, false)
  | first :: _ =>
    match allowed[searchInts allowed current]? with
    | some value => (value, false)
    | none => (first, true)

/-- The day matches: a field that is a star is not looked at, and of two others one is enough. -/
def dayMatch (spec : CronSpec) (time : Int) : Bool :=
  let domMatch := containsInt spec.dom (dayUTC time)
  let dowMatch := containsInt spec.dow (weekdayUTC time)
  if spec.domStar && spec.dowStar then true
  else if spec.domStar then dowMatch
  else if spec.dowStar then domMatch
  else domMatch || dowMatch

/-- The body of the loop of `Next`: where to go on, or nothing where it returns. -/
def jump (spec : CronSpec) (time : Int) : Option Int :=
  if containsInt spec.months (monthUTC time) = false then
    some (dateUTC (yearUTC time) (monthUTC time + 1) 1 0 0 0)
  else if dayMatch spec time = false then
    some (addDate (dateUTC (yearUTC time) (monthUTC time) (dayUTC time) 0 0 0) 0 0 1)
  else
    let (hour, carry) := nextAllowed (hourUTC time) spec.hours
    if carry then
      some (dateUTC (yearUTC time) (monthUTC time) (dayUTC time + 1) (spec.hours.headD 0) 0 0)
    else if hour ≠ hourUTC time then
      some (dateUTC (yearUTC time) (monthUTC time) (dayUTC time) hour 0 0)
    else
      let (minute, carry) := nextAllowed (minuteUTC time) spec.minutes
      if carry then
        some (dateUTC (yearUTC time) (monthUTC time) (dayUTC time) (hourUTC time + 1)
          (spec.minutes.headD 0) 0)
      else if minute ≠ minuteUTC time then
        some (dateUTC (yearUTC time) (monthUTC time) (dayUTC time) (hourUTC time) minute 0)
      else
        let (second, carry) := nextAllowed (secondUTC time) spec.seconds
        if carry then
          some (dateUTC (yearUTC time) (monthUTC time) (dayUTC time) (hourUTC time)
            (minuteUTC time + 1) (spec.seconds.headD 0))
        else if second ≠ secondUTC time then
          some (dateUTC (yearUTC time) (monthUTC time) (dayUTC time) (hourUTC time)
            (minuteUTC time) second)
        else none

/-- The rounds of the loop. -/
def maxRounds : Nat := 366 * 24 * 60 * 60

/-- `Next`; the zero time where the loop ends without a result. -/
def next (spec : CronSpec) (after : Time) : Time :=
  if 0 < spec.interval then after + spec.interval
  else
    match search (jump spec) maxRounds (after / 1000000000 + 1) with
    | none => zeroTime
    | some time => time * 1000000000

end Plumego.Scheduler
