/-
Module: Plumego.Security.AbuseCleanup
Purpose: The cleanup of the abuse limiter, which forgets the keys that were idle for too long, and
  runs of `Allow` calls with cleanups between them.
Trusted boundary: as for the abuse limiter. A cleanup does not overlap with a call.
Main exports: expired, Limiter.cleanup, Turn, turn, cleaning
-/
import Plumego.Security.AbuseLimiter

namespace Plumego.Security.Abuse

open Plumego.Go Plumego.Lib

/-- A bucket that was idle for longer than `maxIdle`. -/
def expired (maxIdle : Int) (now : Time) (bucket : Bucket) : Bool :=
  decide (maxIdle < timeSub now bucket.lastAccess)

/-- `cleanup`: each shard deletes its expired buckets, and counts each one. -/
def Limiter.cleanup (limiter : Limiter) (maxIdle : Int) (now : Time) : Limiter :=
  { limiter with
    shards := limiter.shards.map (keepEntries fun _ bucket => !expired maxIdle now bucket)
    bucketCount := List.zipWith
      (fun count buckets => count - (values buckets).countP (expired maxIdle now))
      limiter.bucketCount limiter.shards }

/-- A call of `Allow`, or a cleanup after some time. -/
inductive Turn where
  | call (op : Op)
  | cleanup (elapsed : Nat)

/-- One turn. Where nothing is cleaned, the time of a cleanup passes all the same. -/
def turn (hash : Bytes → Nat) (maxIdle : Int) (cleans : Bool) (state : State) :
    Turn → State × Option Decision
  | .call op =>
    let (next, decision) := step hash state op
    (next, some decision)
  | .cleanup elapsed =>
    let now := state.clock + elapsed
    ({ state with
        limiter := if cleans then state.limiter.cleanup maxIdle now else state.limiter
        clock := now },
      none)

/-- The limiter with its cleanups, or without them. -/
def cleaning (hash : Bytes → Nat) (maxIdle : Int) (cleans : Bool) :
    Machine State Turn (Option Decision) where
  step := fun state input => some (turn hash maxIdle cleans state input)

end Plumego.Security.Abuse
