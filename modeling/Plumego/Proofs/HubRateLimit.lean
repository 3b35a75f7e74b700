/-
Module: Plumego.Proofs.HubRateLimit
Purpose: The rate limiter of the hub never allows more calls in an interval than the burst and the
  rate give, and a full burst after a long enough pause, as long as the product of a pause and the
  rate fits into 64 bits.
Trusted boundary: as for the rate limiter.
Main exports: Conforms, credit, allowed_le, century, allowedWithin, rate_limited
-/
import Plumego.Websocket.RateLimiter

namespace Plumego.Websocket

open Plumego.Go

/-! ## One call -/

/-- A hundred years, in nanoseconds. -/
def century : Int := 36525 * 86400 * 1000000000

/-- A limiter of a rate and a burst, made at an instant, that was not refilled after another. -/
structure Conforms (rate burst start now : Int) (limiter : RateLimiter) : Prop where
  sameRate : limiter.rate = rate
  sameBurst : limiter.burst = burst
  tokens : (limiter.tokens : Int) ≤ burst * 1000
  refilled : limiter.lastRefill ≤ now
  since : start ≤ limiter.lastRefill

/-- The product that a refill at an instant computes, in 64 bits. -/
def product (limiter : RateLimiter) (now : Int) : Int :=
  wrapInt64 ((now - limiter.lastRefill) * limiter.rate)

/-- Wrapping around takes off whole rounds. -/
theorem wrapInt64_rounds (value : Int) :
    ∃ rounds, wrapInt64 value = value - 18446744073709551616 * rounds := by
  obtain ⟨rounds, roundsEq⟩ := Int.dvd_self_sub_bmod (x := value) (m := 2 ^ 64)
  have size : ((2 ^ 64 : Nat) : Int) = 18446744073709551616 := by decide
  rw [size] at roundsEq
  exact ⟨rounds, by rw [← roundsEq, Int.sub_sub_self, wrapInt64]⟩

/-- What passing time adds to a product in 64 bits, it adds at most. -/
theorem wrapInt64_add_le (value : Int) {more : Int} (positive : 0 ≤ more) :
    wrapInt64 (value + more) ≤ wrapInt64 value + more := by
  obtain ⟨rounds, valueEq⟩ := wrapInt64_rounds value
  obtain ⟨roundsAfter, sumEq⟩ := wrapInt64_rounds (value + more)
  have lower := (inInt64_wrapInt64 value).1
  have upper := (inInt64_wrapInt64 (value + more)).2
  omega

theorem product_le (limiter : RateLimiter) {before now : Int} (later : before ≤ now)
    (positive : 0 ≤ limiter.rate) :
    product limiter now ≤ product limiter before + (now - before) * limiter.rate := by
  have more : 0 ≤ (now - before) * limiter.rate := Int.mul_nonneg (by omega) positive
  have apart : (now - limiter.lastRefill) * limiter.rate =
      (before - limiter.lastRefill) * limiter.rate + (now - before) * limiter.rate := by ring
  rw [product, apart]
  exact wrapInt64_add_le _ more

/-- The limits of the parameters. -/
structure Limits (rate burst : Int) : Prop where
  somewhat : 0 < rate
  something : 0 < burst
  smallBurst : burst ≤ 1000000

variable {rate burst start before now : Int} {limiter : RateLimiter}

theorem Limits.maxTokens_eq (limits : Limits rate burst) :
    (RateLimiter.maxTokens burst : Int) = burst * 1000 := by
  obtain ⟨-, positive, small⟩ := limits
  have lower : 0 ≤ burst * 1000 := by omega
  have upper : burst * 1000 < 2 ^ 63 := by omega
  rw [RateLimiter.maxTokens, wrapInt64_of_inInt64 ⟨Int.le_trans (by decide) lower, upper⟩, toUint64,
    Int.emod_eq_of_lt lower (Int.lt_trans upper (by decide)), Int.toNat_of_nonneg lower]

/-- What a refill does, without the 64 bits but for those of the product. -/
theorem refill_eq (limits : Limits rate burst) (conforms : Conforms rate burst start now limiter)
    (within : now ≤ start + century) :
    limiter.refill now =
      if 1000000 ≤ product limiter now then
        { limiter with
          tokens := (min (limiter.tokens + product limiter now / 1000000) (burst * 1000)).toNat
          lastRefill := now }
      else limiter := by
  have since := conforms.since
  have refilled := conforms.refilled
  have elapsed : wrapInt64 (now - limiter.lastRefill) = now - limiter.lastRefill := by
    apply wrapInt64_of_inInt64
    unfold century at within
    exact ⟨by omega, by omega⟩
  have most := limits.maxTokens_eq
  have small := limits.smallBurst
  have tokens := conforms.tokens
  have unfolded : limiter.refill now =
      if 0 < (product limiter now).tdiv 1000000 then
        { limiter with
          tokens :=
            if RateLimiter.maxTokens limiter.burst <
                (limiter.tokens + toUint64 ((product limiter now).tdiv 1000000)) % 2 ^ 64 then
              RateLimiter.maxTokens limiter.burst
            else (limiter.tokens + toUint64 ((product limiter now).tdiv 1000000)) % 2 ^ 64
          lastRefill := now }
      else limiter := by
    rw [RateLimiter.refill, elapsed]
    rfl
  rw [unfolded]
  by_cases enough : 1000000 ≤ product limiter now
  · have quotient : (product limiter now).tdiv 1000000 = product limiter now / 1000000 :=
      Int.tdiv_eq_ediv_of_nonneg (by omega)
    have below : product limiter now < 2 ^ 63 := (inInt64_wrapInt64 _).2
    have added : (toUint64 (product limiter now / 1000000) : Int) = product limiter now / 1000000 := by
      unfold toUint64
      omega
    have noWrap : (limiter.tokens + toUint64 (product limiter now / 1000000)) % 2 ^ 64 =
        limiter.tokens + toUint64 (product limiter now / 1000000) := Nat.mod_eq_of_lt (by omega)
    have some : 0 < product limiter now / 1000000 := by omega
    clear within elapsed unfolded since refilled
    rw [if_pos enough, quotient, if_pos some, conforms.sameBurst, noWrap, RateLimiter.mk.injEq]
    refine ⟨rfl, rfl, ?_, rfl⟩
    split
    · omega
    · omega
  · have quotient : (product limiter now).tdiv 1000000 ≤ 0 := by
      by_cases negative : product limiter now ≤ 0
      · obtain ⟨size, sizeEq⟩ : ∃ size, product limiter now = -size ∧ 0 ≤ size :=
          ⟨-product limiter now, by omega, by omega⟩
        rw [sizeEq.1, Int.neg_tdiv, Int.tdiv_eq_ediv_of_nonneg sizeEq.2]
        omega
      · rw [Int.tdiv_eq_ediv_of_nonneg (by omega)]
        omega
    rw [if_neg enough, if_neg (by omega)]

theorem product_self (rate burst : Int) (tokens : Nat) (now : Int) :
    product ⟨rate, burst, tokens, now⟩ now = 0 := by
  rw [product, Int.sub_self, Int.zero_mul]
  rfl

/-- What a limiter can still give at an instant, in thousandths of a millionth of a token: its tokens,
and what a refill would add. -/
def credit (limiter : RateLimiter) (now : Int) : Int :=
  limiter.tokens * 1000000 + max 0 (product limiter now)

/-- What a call does: it takes its token from the credit, and there is never more of it than the
burst and less than a thousandth of a token. -/
structure Spends (burst now : Int) (limiter after : RateLimiter) (allowed : Bool) : Prop where
  spent : credit after now + (if allowed then 1000000000 else 0) ≤ credit limiter now
  capped : credit after now + (if allowed then 1000000000 else 0) ≤ burst * 1000000000 + 999999

theorem conforms_refill (limits : Limits rate burst) (conforms : Conforms rate burst start now limiter)
    (within : now ≤ start + century) : Conforms rate burst start now (limiter.refill now) := by
  have positive := limits.something
  rw [refill_eq limits conforms within]
  split
  · refine ⟨conforms.sameRate, conforms.sameBurst, ?_, Int.le_refl now, ?_⟩
    · dsimp only
      omega
    · exact Int.le_trans conforms.since conforms.refilled
  · exact conforms

theorem credit_refill (limits : Limits rate burst) (conforms : Conforms rate burst start now limiter)
    (within : now ≤ start + century) :
    credit (limiter.refill now) now ≤ credit limiter now ∧
      product (limiter.refill now) now < 1000000 := by
  rw [refill_eq limits conforms within]
  split
  · rename_i enough
    rw [product_self, credit, product_self, credit]
    dsimp only
    omega
  · rename_i few
    exact ⟨Int.le_refl _, by omega⟩

theorem allow_spec (limits : Limits rate burst) (conforms : Conforms rate burst start now limiter)
    (within : now ≤ start + century) :
    Conforms rate burst start now (limiter.allow now).1 ∧
      Spends burst now limiter (limiter.allow now).1 (limiter.allow now).2 := by
  have refilled := conforms_refill limits conforms within
  obtain ⟨less, few⟩ := credit_refill limits conforms within
  have tokens := refilled.tokens
  have same : ∀ spent : Nat, product { limiter.refill now with tokens := spent } now =
      product (limiter.refill now) now := fun _ => rfl
  rw [RateLimiter.allow]
  by_cases enough : 1000 ≤ (limiter.refill now).tokens
  · rw [if_pos enough]
    refine ⟨⟨refilled.sameRate, refilled.sameBurst, ?_, refilled.refilled, refilled.since⟩, ?_, ?_⟩
    · dsimp only
      omega
    · rw [credit] at less
      rw [credit, same, if_pos rfl]
      dsimp only
      omega
    · rw [credit, same, if_pos rfl]
      dsimp only
      omega
  · rw [if_neg enough]
    refine ⟨refilled, ?_, ?_⟩
    · rw [if_neg Bool.false_ne_true]
      dsimp only
      omega
    · rw [if_neg Bool.false_ne_true, credit]
      dsimp only
      omega

/-! ## The upper bound -/

/-- The calls of a list are made in order, from an instant on and within a century of another. -/
structure Ordered (start before : Int) (times : List Int) : Prop where
  sorted : (before :: times).Pairwise (· ≤ ·)
  within : ∀ now ∈ times, now ≤ start + century

theorem Ordered.tail {times : List Int} (ordered : Ordered start before (now :: times)) :
    before ≤ now ∧ now ≤ start + century ∧ Ordered start now times :=
  ⟨(List.pairwise_cons.mp ordered.sorted).1 now List.mem_cons_self, ordered.within now List.mem_cons_self,
    (List.pairwise_cons.mp ordered.sorted).2, fun later member =>
      ordered.within later (List.mem_cons_of_mem now member)⟩

theorem Conforms.later (conforms : Conforms rate burst start before limiter) (later : before ≤ now) :
    Conforms rate burst start now limiter :=
  { conforms with refilled := Int.le_trans conforms.refilled later }

theorem credit_le (limits : Limits rate burst) (conforms : Conforms rate burst start before limiter)
    (later : before ≤ now) : credit limiter now ≤ credit limiter before + (now - before) * rate := by
  have grows := product_le limiter later (by rw [conforms.sameRate]; exact Int.le_of_lt limits.somewhat)
  rw [conforms.sameRate] at grows
  have more : 0 ≤ (now - before) * rate := Int.mul_nonneg (by omega) (Int.le_of_lt limits.somewhat)
  unfold credit
  omega

/-- How many calls of an interval were allowed. -/
def allowedWithin (calls : List (Int × Bool)) (first length : Int) : Nat :=
  calls.countP fun call => call.2 && decide (first ≤ call.1) && decide (call.1 ≤ first + length)

theorem allowedWithin_cons (now : Int) (allowed : Bool) (calls : List (Int × Bool)) (first length : Int) :
    allowedWithin ((now, allowed) :: calls) first length = allowedWithin calls first length +
      if allowed = true ∧ first ≤ now ∧ now ≤ first + length then 1 else 0 := by
  simp only [allowedWithin, List.countP_cons, Bool.and_eq_true, decide_eq_true_eq, and_assoc]

/-- Behind an interval no call counts. -/
theorem allowedWithin_eq_zero {times : List Int} {first length : Int} (results : List Bool)
    (behind : ∀ now ∈ times, first + length < now) : allowedWithin (times.zip results) first length = 0 := by
  apply List.countP_eq_zero.mpr
  rintro ⟨now, allowed⟩ member
  have late := behind now (List.of_mem_zip member).1
  simp only [Bool.and_eq_true, decide_eq_true_eq, not_and]
  omega

/-- From an instant in an interval on, what is allowed is paid from the credit at that instant and
from what comes in until the end. -/
theorem allowed_le_credit (limits : Limits rate burst) {times : List Int} {first length : Int}
    (conforms : Conforms rate burst start before limiter) (ordered : Ordered start before times)
    (inside : first ≤ before ∧ before ≤ first + length) :
    (allowedWithin (times.zip (limiter.decisions times)) first length : Int) * 1000000000 ≤
      credit limiter before + (first + length - before) * rate := by
  induction times generalizing limiter before with
  | nil =>
    have more : 0 ≤ (first + length - before) * rate :=
      Int.mul_nonneg (by omega) (Int.le_of_lt limits.somewhat)
    unfold credit
    simp only [allowedWithin, List.zip_nil_left, List.countP_nil]
    omega
  | cons now times ih =>
    obtain ⟨later, within, rest⟩ := ordered.tail
    by_cases outside : first + length < now
    · rw [allowedWithin_eq_zero _ fun other member => by
        rcases List.mem_cons.mp member with rfl | after
        · exact outside
        · exact Int.lt_of_lt_of_le outside ((List.pairwise_cons.mp rest.sorted).1 other after)]
      have more : 0 ≤ (first + length - before) * rate :=
        Int.mul_nonneg (by omega) (Int.le_of_lt limits.somewhat)
      unfold credit
      omega
    · obtain ⟨conformsAfter, spends⟩ := allow_spec limits (conforms.later later) within
      have remaining := ih conformsAfter rest ⟨by omega, by omega⟩
      have grown := credit_le limits conforms later
      have spent := spends.spent
      have apart : (first + length - before) * rate =
          (first + length - now) * rate + (now - before) * rate := by ring
      rw [RateLimiter.decisions, List.zip_cons_cons, allowedWithin_cons]
      cases allowed : (limiter.allow now).2 with
      | false =>
        rw [allowed] at spent
        simp only [Bool.false_eq_true, if_false, false_and] at spent ⊢
        omega
      | true =>
        rw [allowed, if_pos rfl] at spent
        rw [if_pos ⟨rfl, by omega, by omega⟩]
        push_cast
        omega

theorem allowed_le (limits : Limits rate burst) {times : List Int} {first length : Int}
    (notNegative : 0 ≤ length) (conforms : Conforms rate burst start before limiter)
    (ordered : Ordered start before times) :
    (allowedWithin (times.zip (limiter.decisions times)) first length : Int) ≤
      burst + (rate * length + 999999999) / 1000000000 := by
  have positive := limits.something
  have more : 0 ≤ rate * length := Int.mul_nonneg (Int.le_of_lt limits.somewhat) notNegative
  induction times generalizing limiter before with
  | nil =>
    simp only [allowedWithin, List.zip_nil_left, List.countP_nil]
    omega
  | cons now times ih =>
    obtain ⟨later, within, rest⟩ := ordered.tail
    obtain ⟨conformsAfter, spends⟩ := allow_spec limits (conforms.later later) within
    by_cases inside : first ≤ now ∧ now ≤ first + length
    · have remaining := allowed_le_credit limits conformsAfter rest inside
      have capped := spends.capped
      have fewer : (first + length - now) * rate ≤ rate * length := by
        rw [Int.mul_comm rate]
        exact Int.mul_le_mul_of_nonneg_right (by omega) (Int.le_of_lt limits.somewhat)
      rw [RateLimiter.decisions, List.zip_cons_cons, allowedWithin_cons]
      cases allowed : (limiter.allow now).2 with
      | false =>
        rw [allowed] at capped
        simp only [Bool.false_eq_true, if_false, false_and] at capped ⊢
        omega
      | true =>
        rw [allowed, if_pos rfl] at capped
        rw [if_pos ⟨rfl, inside⟩]
        push_cast
        omega
    · rw [RateLimiter.decisions, List.zip_cons_cons, allowedWithin_cons,
        if_neg fun counted => inside counted.2]
      exact ih conformsAfter rest

/-! ## The lower bound -/

/-- The instant of the last call. -/
def lastCall (before : Int) : List Int → Int
  | [] => before
  | now :: times => lastCall now times

/-- No pause between two calls is so long that its product with the rate leaves 64 bits. -/
def Paced (rate before : Int) : List Int → Prop
  | [] => True
  | now :: times => (now - before) * rate + 1000000 ≤ 2 ^ 63 ∧ Paced rate now times

theorem paced_append {rate before now : Int} {times : List Int} (paced : Paced rate before (times ++ [now])) :
    Paced rate before times ∧ (now - lastCall before times) * rate + 1000000 ≤ 2 ^ 63 := by
  induction times generalizing before with
  | nil => exact ⟨trivial, paced.1⟩
  | cons first times ih =>
    obtain ⟨rest, last⟩ := ih paced.2
    exact ⟨⟨paced.1, rest⟩, last⟩

/-- Less than a thousandth of a token has come in since the last refill. -/
def Fresh (rate now : Int) (limiter : RateLimiter) : Prop :=
  (now - limiter.lastRefill) * rate < 1000000

theorem product_eq (conforms : Conforms rate burst start before limiter) (limits : Limits rate burst)
    (fresh : Fresh rate before limiter) (later : before ≤ now)
    (paced : (now - before) * rate + 1000000 ≤ 2 ^ 63) :
    product limiter now = (now - limiter.lastRefill) * rate := by
  have apart : (now - limiter.lastRefill) * rate =
      (before - limiter.lastRefill) * rate + (now - before) * rate := by ring
  have refilled := conforms.refilled
  have notNegative : 0 ≤ (now - limiter.lastRefill) * rate :=
    Int.mul_nonneg (by omega) (Int.le_of_lt limits.somewhat)
  rw [product, conforms.sameRate]
  unfold Fresh at fresh
  exact wrapInt64_of_inInt64 ⟨by omega, by omega⟩

theorem lastRefill_allow (limiter : RateLimiter) (now : Int) :
    (limiter.allow now).1.lastRefill = (limiter.refill now).lastRefill := by
  unfold RateLimiter.allow
  dsimp only
  split
  · rfl
  · rfl

theorem fresh_allow (limits : Limits rate burst) (conforms : Conforms rate burst start before limiter)
    (fresh : Fresh rate before limiter) (later : before ≤ now) (within : now ≤ start + century)
    (paced : (now - before) * rate + 1000000 ≤ 2 ^ 63) : Fresh rate now (limiter.allow now).1 := by
  have exactly := product_eq conforms limits fresh later paced
  rw [Fresh, lastRefill_allow, refill_eq limits (conforms.later later) within]
  split
  · rw [Int.sub_self, Int.zero_mul]
    decide
  · omega

theorem spec_after (limits : Limits rate burst) {times : List Int}
    (conforms : Conforms rate burst start before limiter) (fresh : Fresh rate before limiter)
    (ordered : Ordered start before times) (paced : Paced rate before times) :
    Conforms rate burst start (lastCall before times) (limiter.after times) ∧
      Fresh rate (lastCall before times) (limiter.after times) := by
  induction times generalizing limiter before with
  | nil => exact ⟨conforms, fresh⟩
  | cons now times ih =>
    obtain ⟨later, within, rest⟩ := ordered.tail
    exact ih (allow_spec limits (conforms.later later) within).1
      (fresh_allow limits conforms fresh later within paced.1) rest paced.2

theorem decisions_append (limiter : RateLimiter) (first second : List Int) :
    limiter.decisions (first ++ second) =
      limiter.decisions first ++ (limiter.after first).decisions second := by
  induction first generalizing limiter with
  | nil => rfl
  | cons now first ih =>
    rw [List.cons_append, RateLimiter.decisions, RateLimiter.decisions, ih]
    rfl

theorem length_decisions (limiter : RateLimiter) (times : List Int) :
    (limiter.decisions times).length = times.length := by
  induction times generalizing limiter with
  | nil => rfl
  | cons now times ih =>
    rw [RateLimiter.decisions, List.length_cons, ih, List.length_cons]

/-- At the instant of a refill, a call is allowed for every whole token. -/
theorem decisions_replicate (rate burst now : Int) (count : Nat) :
    (RateLimiter.mk rate burst (1000 * count) now).decisions (List.replicate count now) =
      List.replicate count true := by
  induction count with
  | zero => rfl
  | succ count ih =>
    have still : (RateLimiter.mk rate burst (1000 * (count + 1)) now).refill now =
        ⟨rate, burst, 1000 * (count + 1), now⟩ := by
      have nothing : wrapInt64 0 = 0 := rfl
      simp [RateLimiter.refill, nothing]
    have step : (RateLimiter.mk rate burst (1000 * (count + 1)) now).allow now =
        (⟨rate, burst, 1000 * count, now⟩, true) := by
      rw [RateLimiter.allow, still]
      dsimp only
      rw [if_pos (by omega)]
      simp only [Prod.mk.injEq, RateLimiter.mk.injEq, true_and, and_true]
      omega
    rw [List.replicate_succ, List.replicate_succ, RateLimiter.decisions, step, ih]

/-- A refill gives the same to the first call as to a limiter that was refilled just before. -/
theorem decisions_refill (limiter : RateLimiter) (now : Int)
    (again : (limiter.refill now).refill now = limiter.refill now) (times : List Int) :
    limiter.decisions (now :: times) = (limiter.refill now).decisions (now :: times) := by
  have same : limiter.allow now = (limiter.refill now).allow now := by
    rw [RateLimiter.allow, RateLimiter.allow, again]
  rw [RateLimiter.decisions, RateLimiter.decisions, same]

/-- After a pause in which the whole burst comes in, that many calls are allowed at once. -/
theorem decisions_after_pause (limits : Limits rate burst)
    (conforms : Conforms rate burst start before limiter) (fresh : Fresh rate before limiter)
    (later : before ≤ now) (within : now ≤ start + century)
    (paced : (now - before) * rate + 1000000 ≤ 2 ^ 63)
    (idle : burst * 1000000000 ≤ (now - before) * rate) :
    limiter.decisions (List.replicate burst.toNat now) = List.replicate burst.toNat true := by
  have positive := limits.something
  have exactly := product_eq conforms limits fresh later paced
  have more : (now - before) * rate ≤ (now - limiter.lastRefill) * rate :=
    Int.mul_le_mul_of_nonneg_right (by have := conforms.refilled; omega) (Int.le_of_lt limits.somewhat)
  have full : limiter.refill now = ⟨limiter.rate, limiter.burst, 1000 * burst.toNat, now⟩ := by
    rw [refill_eq limits (conforms.later later) within, if_pos (by omega)]
    congr 1
    omega
  obtain ⟨count, countEq⟩ : ∃ count, burst.toNat = count + 1 := ⟨burst.toNat - 1, by omega⟩
  have again : (limiter.refill now).refill now = limiter.refill now := by
    have nothing : wrapInt64 0 = 0 := rfl
    rw [full]
    simp [RateLimiter.refill, nothing]
  have first := decisions_replicate limiter.rate limiter.burst now burst.toNat
  rw [countEq, List.replicate_succ] at first ⊢
  rw [decisions_refill limiter now again, full, countEq]
  exact first

/-! ## Both bounds -/

theorem newRateLimiter_eq (limits : Limits rate burst) (start : Int) :
    ∃ limiter, newRateLimiter rate burst start = some limiter ∧
      Conforms rate burst start start limiter ∧ Fresh rate start limiter := by
  have positive := limits.something
  have somewhat := limits.somewhat
  have most := limits.maxTokens_eq
  refine ⟨⟨rate, burst, RateLimiter.maxTokens burst, start⟩, ?_, ⟨rfl, rfl, ?_, ?_, ?_⟩, ?_⟩
  · rw [newRateLimiter, if_neg (by omega), if_neg (by omega)]
  · exact Int.le_of_eq most
  · exact Int.le_refl start
  · exact Int.le_refl start
  · rw [Fresh, Int.sub_self, Int.zero_mul]
    decide

/-- For every rate and burst up to a million and all calls in order within a century: in no interval
are more calls allowed than the burst and what the rate gives in it, rounded up; and after a pause
in which the whole burst comes in, that many calls at one instant are allowed, if no pause up to
then is so long that its product with the rate leaves 64 bits. -/
theorem rate_limited (rate burst start : Int) (times : List Int)
    (someRate : 1 ≤ rate ∧ rate ≤ 1000000) (someBurst : 1 ≤ burst ∧ burst ≤ 1000000)
    (ordered : Ordered start start times) :
    (∀ first length, 0 ≤ length →
      (allowedWithin (decisions (newRateLimiter rate burst start) times) first length : Int) ≤
        burst + (rate * length + 999999999) / 1000000000) ∧
    ∀ front now rest, times = front ++ List.replicate burst.toNat now ++ rest →
      burst * 1000000000 ≤ (now - lastCall start front) * rate →
      Paced rate start (front ++ [now]) →
      (((decisions (newRateLimiter rate burst start) times).map Prod.snd).drop front.length).take
        burst.toNat = List.replicate burst.toNat true := by
  have limits : Limits rate burst := ⟨by omega, by omega, someBurst.2⟩
  obtain ⟨limiter, made, conforms, fresh⟩ := newRateLimiter_eq limits start
  rw [made]
  refine ⟨fun first length notNegative => allowed_le limits notNegative conforms ordered, ?_⟩
  intro front now rest timesEq idle paced
  have results : (decisions (some limiter) times).map Prod.snd = limiter.decisions times :=
    List.map_snd_zip (Nat.le_of_eq (length_decisions limiter times))
  have orderedFront : Ordered start start front := by
    refine ⟨ordered.sorted.sublist ?_, fun other member => ordered.within other ?_⟩
    · rw [timesEq, List.append_assoc]
      exact (List.sublist_append_left front _).cons_cons start
    · rw [timesEq, List.append_assoc]
      exact List.mem_append_left _ member
  obtain ⟨pacedFront, pacedNow⟩ := paced_append paced
  obtain ⟨conformsAfter, freshAfter⟩ := spec_after limits conforms fresh orderedFront pacedFront
  have later : lastCall start front ≤ now := by
    by_contra earlier
    have negative : (now - lastCall start front) * rate ≤ 0 :=
      Int.mul_nonpos_of_nonpos_of_nonneg (by omega) (by omega)
    omega
  have member : now ∈ times := by
    rw [timesEq]
    refine List.mem_append_left _ (List.mem_append_right _ (List.mem_replicate.mpr ⟨?_, rfl⟩))
    omega
  have allowed := decisions_after_pause limits conformsAfter freshAfter later
    (ordered.within now member) pacedNow idle
  rw [results, timesEq, List.append_assoc, decisions_append, decisions_append, allowed,
    List.drop_left' (length_decisions limiter front), List.take_left' List.length_replicate]

/-- Two calls in a row, and two more after two seconds. -/
theorem rate_limited_twoCalls :
    (((decisions (newRateLimiter 1 2 0) [0, 0, 2000000000, 2000000000]).map Prod.snd).drop 2).take 2 =
      [true, true] :=
  (rate_limited 1 2 0 [0, 0, 2000000000, 2000000000] ⟨by decide, by decide⟩ ⟨by decide, by decide⟩
    ⟨by decide, by decide⟩).2 [0, 0] 2000000000 [] rfl (by decide)
    ⟨by decide, by decide, by decide, trivial⟩

/-- A million tokens in a second, one at once: a call after a pause of almost three hours is refused,
since the product of the pause and the rate is negative in 64 bits. -/
theorem refused_after_pause :
    decisions (newRateLimiter 1000000 1 0) [0, 10000000000000] =
      [(0, true), (10000000000000, false)] := by
  decide +kernel

end Plumego.Websocket
