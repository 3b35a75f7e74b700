/-
Module: Plumego.Websocket.RateLimiter
Purpose: The rate limiter of the websocket hub: a token bucket in thousandths of a token, with the
  64-bit arithmetic of the source.
Trusted boundary: an instant is what `time.Now().UnixNano()` returns. Calls are made one after the
  other, as under the lock.
Main exports: RateLimiter, newRateLimiter, refill, allow, decisions
-/
import Plumego.Go.Time

namespace Plumego.Websocket

open Plumego.Go

/-- `simpleRateLimiter`. -/
structure RateLimiter where
  rate : Int
  burst : Int
  tokens : Nat
  lastRefill : Int
deriving DecidableEq, Repr

/-- `uint64(rl.burst * 1000)`. -/
def RateLimiter.maxTokens (burst : Int) : Nat := toUint64 (wrapInt64 (burst * 1000))

/-- `newRateLimiter`. -/
def newRateLimiter (rate burst now : Int) : Option RateLimiter :=
  if rate ≤ 0 then none
  else
    let burst := if burst ≤ 0 then rate else burst
    some ⟨rate, burst, RateLimiter.maxTokens burst, now⟩

/-- The first part of `allow`. -/
def RateLimiter.refill (limiter : RateLimiter) (now : Int) : RateLimiter :=
  let elapsed := wrapInt64 (now - limiter.lastRefill)
  let tokensToAdd := (wrapInt64 (elapsed * limiter.rate)).tdiv 1000000
  if 0 < tokensToAdd then
    let maxTokens := RateLimiter.maxTokens limiter.burst
    let tokens := (limiter.tokens + toUint64 tokensToAdd) % 2 ^ 64
    { limiter with
      tokens := if maxTokens < tokens then maxTokens else tokens
      lastRefill := now }
  else limiter

/-- `allow` of a limiter that is not nil. -/
def RateLimiter.allow (limiter : RateLimiter) (now : Int) : RateLimiter × Bool :=
  let limiter := limiter.refill now
  if 1000 ≤ limiter.tokens then ({ limiter with tokens := limiter.tokens - 1000 }, true)
  else (limiter, false)

/-- The limiter after calls at some instants. -/
def RateLimiter.after (limiter : RateLimiter) : List Int → RateLimiter
  | [] => limiter
  | now :: times => ((limiter.allow now).1).after times

/-- What the calls return. -/
def RateLimiter.decisions (limiter : RateLimiter) : List Int → List Bool
  | [] => []
  | now :: times => (limiter.allow now).2 :: ((limiter.allow now).1).decisions times

/-- The calls with what they return; without a limiter everything is allowed. -/
def decisions (limiter : Option RateLimiter) (times : List Int) : List (Int × Bool) :=
  match limiter with
  | none => times.map fun now => (now, true)
  | some limiter => times.zip (limiter.decisions times)

end Plumego.Websocket
