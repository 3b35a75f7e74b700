/-
Module: Plumego.Tenant.Quota
Purpose: Quota limits over windows of time, and the quota manager with one counter per tenant,
  where a call reads the clock and later counts its usage under the lock.
Trusted boundary: as for the calendar; `Time.Truncate` cuts down to a multiple of a duration since the
  zero time. What a call does before it has the lock is one step, and so is what it does under the
  lock. The configuration of a tenant does not change. The clock does not go back.
Main exports: QuotaWindow, QuotaResult, QuotaCounter, FixedWindowQuotaManager, Op, step, machine
-/
import Plumego.Go.Calendar
import Plumego.Go.Maps
import Plumego.Go.Strings
import Plumego.Go.Time
import Plumego.Lib.Machine

namespace Plumego.Tenant

open Plumego.Go Plumego.Lib

def errQuotaExceeded : GoError := .new "quota exceeded"

/-- `QuotaWindow`; every other text is not valid. -/
inductive QuotaWindow where
  | minute
  | hour
  | day
  | month
  | other (name : Bytes)
deriving DecidableEq, Repr

/-- `QuotaLimit`. -/
structure QuotaLimit where
  window : QuotaWindow
  requests : Int
  tokens : Int
deriving DecidableEq, Repr

/-- `QuotaConfig`. -/
structure QuotaConfig where
  limits : List QuotaLimit
deriving DecidableEq, Repr

/-- `QuotaRequest`. -/
structure QuotaRequest where
  requests : Int
  tokens : Int
  now : Time
deriving DecidableEq, Repr

/-- `QuotaResult`. -/
structure QuotaResult where
  allowed : Bool
  remainingRequests : Int
  remainingTokens : Int
  retryAfter : Int
deriving DecidableEq, Repr

/-- `QuotaResult{Allowed: allowed}`. -/
def QuotaResult.plain (allowed : Bool) : QuotaResult := ⟨allowed, 0, 0, 0⟩

/-- A call that was allowed, with the request after its defaults. -/
structure Allowed where
  tenantID : Bytes
  request : QuotaRequest
deriving DecidableEq, Repr

/-- `normalizeQuotaRequest`, with what the clock shows. -/
def normalizeQuotaRequest (clock : Time) (request : QuotaRequest) : QuotaRequest where
  requests := if request.requests ≤ 0 then 1 else request.requests
  tokens := request.tokens
  now := if isZero request.now then clock else request.now

/-- `isValidQuotaWindow`. -/
def isValidQuotaWindow : QuotaWindow → Bool
  | .minute | .hour | .day | .month => true
  | .other _ => false

/-- `normalizeQuotaLimits`. -/
def normalizeQuotaLimits (config : QuotaConfig) : List QuotaLimit :=
  config.limits.filter fun limit => isValidQuotaWindow limit.window

/-- `Time.Truncate`. -/
def truncate (instant : Time) (duration : Int) : Time := instant - (instant - zeroTime) % duration

/-- `time.Minute` and `time.Hour`. -/
def minute : Int := 60000000000

def hour : Int := 3600000000000

/-- An instant on a whole second. -/
def onSecond (seconds : Int) : Time := seconds * 1000000000

/-- `quotaWindowStart`. -/
def quotaWindowStart (now : Time) (window : QuotaWindow) : Time :=
  let seconds := now / 1000000000
  match window with
  | .hour => truncate now hour
  | .day => onSecond (dateUTC (yearUTC seconds) (monthUTC seconds) (dayUTC seconds) 0 0 0)
  | .month => onSecond (dateUTC (yearUTC seconds) (monthUTC seconds) 1 0 0 0)
  | .minute | .other _ => truncate now minute

/-- `quotaWindowEnd`. -/
def quotaWindowEnd (start : Time) (window : QuotaWindow) : Time :=
  match window with
  | .hour => start + hour
  | .day => start + 24 * hour
  | .month => onSecond (addDate (start / 1000000000) 0 1 0) + start % 1000000000
  | .minute | .other _ => start + minute

/-- `remaining`. -/
def remaining (limit used : Int) : Int :=
  if limit ≤ 0 then -1 else if limit - used < 0 then 0 else limit - used

/-- `time.Until(end)`, at least zero. -/
def retryAfter (clock windowEnd : Time) : Int :=
  if timeSub windowEnd clock < 0 then 0 else timeSub windowEnd clock

/-! ## Windows -/

/-- An instant is not behind the end of its window. -/
theorem lt_quotaWindowEnd (now : Int) (window : QuotaWindow) :
    now < quotaWindowEnd (quotaWindowStart now window) window := by
  cases window with
  | minute =>
    simp only [quotaWindowEnd, quotaWindowStart, truncate, minute]
    omega
  | hour =>
    simp only [quotaWindowEnd, quotaWindowStart, truncate, hour]
    omega
  | day =>
    simp only [quotaWindowEnd, quotaWindowStart, onSecond, hour, dateUTC_today]
    omega
  | month =>
    have inMonth := Gregorian.lt_nextMonth (dayNumberUTC (now / 1000000000))
    change _ < Gregorian.dayNumber (yearUTC (now / 1000000000)) _ 1 at inMonth
    have wholeSecond : ∀ seconds : Int, seconds * 1000000000 / 1000000000 = seconds ∧
        seconds * 1000000000 % 1000000000 = 0 := by omega
    simp only [quotaWindowEnd, quotaWindowStart, onSecond, (wholeSecond _).1, (wholeSecond _).2,
      addDate_firstOfMonth, dateUTC_nextMonth]
    have numberEq : dayNumberUTC (now / 1000000000) = now / 1000000000 / 86400 + epochDay := rfl
    omega
  | other name =>
    simp only [quotaWindowEnd, quotaWindowStart, truncate, minute]
    omega

end Plumego.Tenant

/-! ## One counter per tenant -/

namespace Plumego.Tenant.FixedWindow

open Plumego.Go Plumego.Lib

/-- `quotaCounter`. -/
structure QuotaCounter where
  windowStart : Time
  windowEnd : Time
  requests : Int
  tokens : Int
deriving DecidableEq, Repr

/-- A call of `Allow` that waits for the lock. -/
structure Waiting where
  tenantID : Bytes
  request : QuotaRequest
  limit : QuotaLimit
  windowStart : Time
deriving DecidableEq, Repr

/-- `FixedWindowQuotaManager`, with the clock, the calls that wait for the lock, and a record of the
calls that were allowed, which no step reads. -/
structure FixedWindowQuotaManager where
  counters : StringMap QuotaCounter
  lastEviction : Time
  clock : Time
  waiting : List Waiting
  allowed : List Allowed

/-- `NewFixedWindowQuotaManager`. -/
def newFixedWindowQuotaManager (clock : Time) : FixedWindowQuotaManager where
  counters := ∅
  lastEviction := clock
  clock := clock
  waiting := []
  allowed := []

/-- `evictStaleLocked`. -/
def evictStaleLocked (manager : FixedWindowQuotaManager) (now : Time) : FixedWindowQuotaManager :=
  if timeSub now manager.lastEviction < minute then manager
  else
    { manager with
      counters := keepEntries (fun _ counter => !decide (counter.windowEnd < now)) manager.counters
      lastEviction := now }

/-- The counter for a window: the one at hand, or a new one. -/
def counterFor (counters : StringMap QuotaCounter) (call : Waiting) : QuotaCounter :=
  let fresh : QuotaCounter :=
    ⟨call.windowStart, quotaWindowEnd call.windowStart call.limit.window, 0, 0⟩
  match counters.lookup call.tenantID with
  | none => fresh
  | some counter => if counter.windowStart ≠ call.windowStart then fresh else counter

/-- The locked section of `Allow`. -/
def enter (manager : FixedWindowQuotaManager) (call : Waiting) :
    FixedWindowQuotaManager × QuotaResult × Option GoError :=
  let manager := evictStaleLocked manager call.request.now
  let counter := counterFor manager.counters call
  let nextRequests := wrapInt64 (counter.requests + call.request.requests)
  let nextTokens := wrapInt64 (counter.tokens + call.request.tokens)
  if (0 < call.limit.requests ∧ call.limit.requests < nextRequests) ∨
      (0 < call.limit.tokens ∧ call.limit.tokens < nextTokens) then
    ({ manager with counters := manager.counters.insert call.tenantID counter },
      { allowed := false
        remainingRequests := remaining call.limit.requests counter.requests
        remainingTokens := remaining call.limit.tokens counter.tokens
        retryAfter := retryAfter manager.clock counter.windowEnd },
      some errQuotaExceeded)
  else
    ({ manager with
        counters := manager.counters.insert call.tenantID
          { counter with requests := nextRequests, tokens := nextTokens }
        allowed := manager.allowed ++ [⟨call.tenantID, call.request⟩] },
      { allowed := true
        remainingRequests := remaining call.limit.requests nextRequests
        remainingTokens := remaining call.limit.tokens nextTokens
        retryAfter := 0 },
      none)

/-- What can happen next; a waiting call is named by its place. -/
inductive Op where
  | tick (elapsed : Nat)
  | allow (tenantID : Bytes) (request : QuotaRequest)
  | enter (call : Nat)
deriving DecidableEq, Repr

/-- One step, with what `Allow` returns if it ends with the step. -/
def step (provider : Bytes → Except GoError QuotaConfig) (manager : FixedWindowQuotaManager) :
    Op → Option (FixedWindowQuotaManager × Option (QuotaResult × Option GoError))
  | .tick elapsed => some ({ manager with clock := manager.clock + elapsed }, none)
  | .allow tenantID request =>
    match provider tenantID with
    | .error failure => some (manager, some (.plain false, some failure))
    | .ok config =>
      let request := normalizeQuotaRequest manager.clock request
      match normalizeQuotaLimits config with
      | [] => some (manager, some (.plain true, none))
      | limit :: _ =>
        if limit.requests ≤ 0 ∧ limit.tokens ≤ 0 then some (manager, some (.plain true, none))
        else
          some ({ manager with
            waiting := manager.waiting ++
              [⟨tenantID, request, limit, quotaWindowStart request.now limit.window⟩] }, none)
  | .enter call =>
    (manager.waiting[call]?).map fun waiting =>
      let (next, result) :=
        enter { manager with waiting := manager.waiting.eraseIdx call } waiting
      (next, some result)

/-- The manager as a machine. -/
def machine (provider : Bytes → Except GoError QuotaConfig) :
    Machine FixedWindowQuotaManager Op (Option (QuotaResult × Option GoError)) := ⟨step provider⟩

end Plumego.Tenant.FixedWindow
