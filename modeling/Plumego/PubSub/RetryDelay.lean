/-
Module: Plumego.PubSub.RetryDelay
Purpose: The delays between retries: `calculateRetryDelay` of the dead letter queue and
  `safeExponentialBackoff` of the scheduler, in 64-bit arithmetic.
Trusted boundary: a duration is an int64 number of nanoseconds; a shift by 64 or more gives zero.
Main exports: RetryStrategy, RetryConfig, calculateRetryDelay, safeExponentialBackoff
-/
import Plumego.Go.Time

namespace Plumego.PubSub.Retry

open Plumego.Go

/-- `RetryStrategy`. -/
inductive RetryStrategy where
  | noRetry
  | fixedDelay
  | exponentialBackoff
  | linearBackoff
deriving DecidableEq, Repr

/-- The fields of `DLQConfig` that decide the delay. -/
structure RetryConfig where
  retryStrategy : RetryStrategy
  initialRetryDelay : Int
  maxRetryDelay : Int
deriving DecidableEq, Repr

/-- `value << count` on an int64. -/
def shiftLeft (value : Int) (count : Nat) : Int := wrapInt64 (value * 2 ^ count)

/-- A delay over the limit becomes the limit. -/
def clamp (limit delay : Int) : Int := if limit < delay then limit else delay

/-- `calculateRetryDelay`. -/
def calculateRetryDelay (config : RetryConfig) (retryCount : Int) : Int :=
  match config.retryStrategy with
  | .fixedDelay => config.initialRetryDelay
  | .exponentialBackoff =>
    clamp config.maxRetryDelay
      (wrapInt64 (config.initialRetryDelay * shiftLeft 1 (toUint64 retryCount)))
  | .linearBackoff =>
    clamp config.maxRetryDelay
      (wrapInt64 (config.initialRetryDelay * wrapInt64 (retryCount + 1)))
  | .noRetry => config.initialRetryDelay

/-- `safeExponentialBackoff`. -/
def safeExponentialBackoff (base maxBackoff attempt : Int) : Int :=
  if attempt ≤ 1 then base
  else
    let shift := attempt - 1
    let overflowed := if 0 < maxBackoff then maxBackoff else base
    if 63 ≤ shift ∨ (2 ^ 62 : Int).tdiv (shiftLeft 1 shift.toNat) < base then overflowed
    else
      let backoff := shiftLeft base shift.toNat
      if backoff ≤ 0 then overflowed
      else if 0 < maxBackoff ∧ maxBackoff < backoff then maxBackoff
      else backoff

end Plumego.PubSub.Retry
