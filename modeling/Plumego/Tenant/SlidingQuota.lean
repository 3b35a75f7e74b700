/-
Module: Plumego.Tenant.SlidingQuota
Purpose: The quota manager with a sliding window: logs of what was allowed in the last minute, cut
  by binary search, and how long a denied call is told to wait.
Trusted boundary: `sort.Search` and the comparison of times are as in the library. The window's
  mutex makes a call one step. The configuration does not change, and the provider returns it. The
  totals of requests and of tokens stay below 2^63, so no sum wraps. One tenant is modelled.
Main exports: SlidingWindow, slidingWindowEffectiveLimits, allow, State, step, machine
-/
import Plumego.Go.Slices
import Plumego.Lib.TimedLog
import Plumego.Tenant.Quota

namespace Plumego.Tenant.Sliding

open Plumego.Go Plumego.Lib Plumego.Lib.TimedLog

def errUnsupportedQuotaWindow : GoError := .new "unsupported quota window"

/-- `slidingWindow`; the entries of `tokenUsage` are times with tokens. -/
structure SlidingWindow where
  requestTimes : List Time
  tokenUsage : List Entry
deriving DecidableEq, Repr

/-- The `sort.Search` for the first time after the cutoff. -/
def firstAfter (times : List Time) (cutoff : Time) : Nat :=
  Id.run (Go.search times.length fun place => pure ((times[place]?).any fun time => cutoff < time))

namespace SlidingWindow

variable (window : SlidingWindow)

def cleanup (cutoff : Time) : SlidingWindow :=
  let idx := firstAfter window.requestTimes cutoff
  let tidx := firstAfter (window.tokenUsage.map Entry.time) cutoff
  { requestTimes := if 0 < idx then window.requestTimes.drop idx else window.requestTimes
    tokenUsage := if 0 < tidx then window.tokenUsage.drop tidx else window.tokenUsage }

def calculateRequestRetryAfter (now : Time) (needed : Int) : Int :=
  let length : Int := window.requestTimes.length
  if length = 0 ∨ needed ≤ 0 then 0
  else
    let needed := if length < needed then length else needed
    -- The index is in range: it is at least 0 and less than the length.
    retryAfter now (window.requestTimes.getD (needed - 1).toNat 0 + minute)

def calculateTokenRetryAfter (now : Time) (needed : Int) : Int :=
  if window.tokenUsage = [] ∨ needed ≤ 0 then 0
  else retryAfter now (reachedAt needed 0 zeroTime window.tokenUsage + minute)

end SlidingWindow

def slidingWindowEffectiveLimits (config : QuotaConfig) : Int × Int :=
  match config.limits.find? fun limit => limit.window = .minute with
  | some limit => (limit.requests, limit.tokens)
  | none => (0, 0)

/-- The check of `Allow` for windows other than a minute. -/
def unsupported (config : QuotaConfig) : Bool :=
  config.limits.any fun limit => isValidQuotaWindow limit.window && limit.window ≠ .minute

/-- `Allow`, with what the clock shows. -/
def allow (config : QuotaConfig) (clock : Time) (request : QuotaRequest) (window : SlidingWindow) :
    SlidingWindow × QuotaResult × Option GoError :=
  if unsupported config then (window, .plain false, some errUnsupportedQuotaWindow)
  else
    let (reqLimit, tokLimit) := slidingWindowEffectiveLimits config
    if reqLimit ≤ 0 ∧ tokLimit ≤ 0 then (window, .plain true, none)
    else
      let req := normalizeQuotaRequest clock request
      let window := window.cleanup (req.now - minute)
      let currentRequests : Int := window.requestTimes.length
      let currentTokens := weight window.tokenUsage
      let denied (wait : Int) : SlidingWindow × QuotaResult × Option GoError :=
        (window, ⟨false, remaining reqLimit currentRequests, remaining tokLimit currentTokens,
          wait⟩, some errQuotaExceeded)
      if 0 < reqLimit ∧ reqLimit < currentRequests + req.requests then
        denied (window.calculateRequestRetryAfter req.now
          (currentRequests + req.requests - reqLimit))
      else if 0 < tokLimit ∧ tokLimit < currentTokens + req.tokens then
        denied (window.calculateTokenRetryAfter req.now (currentTokens + req.tokens - tokLimit))
      else
        ({ requestTimes := window.requestTimes ++ List.replicate req.requests.toNat req.now
           tokenUsage := if 0 < req.tokens then window.tokenUsage ++ [⟨req.now, req.tokens⟩]
             else window.tokenUsage },
          ⟨true, remaining reqLimit (currentRequests + req.requests),
            remaining tokLimit (currentTokens + req.tokens), 0⟩, none)

/-! ## Runs -/

/-- The tenant's window, the `Now` of the last call, and the requests that were allowed. -/
structure State where
  window : SlidingWindow
  last : Time
  allowed : List QuotaRequest
deriving DecidableEq, Repr

/-- No calls yet; the first is not before `start`. -/
def initial (start : Time) : State := ⟨⟨[], []⟩, start, []⟩

/-- A call: what the clock shows, and the request. -/
abbrev Call := Time × QuotaRequest

/-- One call. -/
def step (config : QuotaConfig) (state : State) (call : Call) :
    Option (State × QuotaResult × Option GoError) :=
  let req := normalizeQuotaRequest call.1 call.2
  let (window, result, err) := allow config call.1 call.2 state.window
  some (⟨window, req.now, if result.allowed then state.allowed ++ [req] else state.allowed⟩,
    result, err)

/-- The quota manager for one tenant as a machine. -/
def machine (config : QuotaConfig) : Machine State Call (QuotaResult × Option GoError) :=
  ⟨step config⟩

end Plumego.Tenant.Sliding
