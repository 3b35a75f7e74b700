/-
Module: Plumego.Proofs.FixedWindowBound
Purpose: What the calls of a tenant may use in one window: as long as no call reaches the lock with
  a window before that of the counter, and no sum leaves the 64 bits, the allowed calls of a window
  stay within its limits. A call with an older window starts the count of that window anew.
Trusted boundary: as for the quota manager.
Main exports: Within, OfTenant, InOrder, Accounted, within_of_inOrder
-/
import Plumego.Proofs.QuotaStore
import Plumego.Tenant.Quota

namespace Plumego.Tenant

open Plumego.Go Plumego.Lib

namespace FixedWindow

def QuotaCounter.used (counter : QuotaCounter) : Dimension → Int
  | .requests => counter.requests
  | .tokens => counter.tokens

/-! ## The specification -/

/-- The limit that the calls of a tenant are held to. -/
def activeLimit (provider : Bytes → Except GoError QuotaConfig) (tenantID : Bytes) : Option QuotaLimit :=
  match provider tenantID with
  | .error _ => none
  | .ok config => (normalizeQuotaLimits config).head?

/-- No window has more usage than a positive limit. -/
def Within (tenantID : Bytes) (limit : QuotaLimit) (manager : FixedWindowQuotaManager) : Prop :=
  ∀ dimension, 0 < limit.bound dimension → ∀ start,
    usage tenantID limit.window start dimension manager.allowed ≤ limit.bound dimension

/-- The calls are those of the tenant, with token amounts that are not negative. -/
def OfTenant (tenantID : Bytes) (_ : FixedWindowQuotaManager) : Op → Prop
  | .allow caller request => caller = tenantID ∧ 0 ≤ request.tokens
  | .tick _ | .enter _ => True

/-- What the counter shows for the window of a call, before the call. -/
def usedBefore (manager : FixedWindowQuotaManager) (call : Waiting) (dimension : Dimension) : Int :=
  match manager.counters.lookup call.tenantID with
  | none => 0
  | some counter => if counter.windowStart = call.windowStart then counter.used dimension else 0

/-- A call reaches the lock with a window that does not start before that of the counter, and the
sums that are held to a limit stay within the 64 bits. -/
def InOrder (manager : FixedWindowQuotaManager) : Op → Prop
  | .enter call => ∀ waiting ∈ manager.waiting[call]?,
      (∀ counter ∈ manager.counters.lookup waiting.tenantID,
        counter.windowStart ≤ waiting.windowStart) ∧
      ∀ dimension, 0 < waiting.limit.bound dimension →
        usedBefore manager waiting dimension + waiting.request.amount dimension < 2 ^ 63
  | .tick _ | .allow _ _ => True

instance (tenantID : Bytes) (manager : FixedWindowQuotaManager) (op : Op) :
    Decidable (OfTenant tenantID manager op) := by
  cases op <;> dsimp only [OfTenant] <;> infer_instance

instance (manager : FixedWindowQuotaManager) (op : Op) : Decidable (InOrder manager op) := by
  cases op <;> dsimp only [InOrder] <;> infer_instance

/-! ## Accounts -/

/-- A call of the tenant that waits, under the limit. -/
structure Queued (tenantID : Bytes) (limit : QuotaLimit) (call : Waiting) : Prop where
  tenant : call.tenantID = tenantID
  limited : call.limit = limit
  window : call.windowStart = quotaWindowStart call.request.now limit.window
  nonneg : ∀ dimension, 0 ≤ call.request.amount dimension

/-- The counter is that of the latest window and shows its usage. -/
structure Shows (tenantID : Bytes) (limit : QuotaLimit) (allowed : List Allowed)
    (counter : QuotaCounter) : Prop where
  windowEnd : counter.windowEnd = quotaWindowEnd counter.windowStart limit.window
  latest : ∀ call ∈ allowed, quotaWindowStart call.request.now limit.window ≤ counter.windowStart
  used : ∀ dimension, 0 < limit.bound dimension →
    counter.used dimension = usage tenantID limit.window counter.windowStart dimension allowed

/-- What holds between the steps. -/
structure Accounted (tenantID : Bytes) (limit : QuotaLimit) (manager : FixedWindowQuotaManager) :
    Prop where
  queued : ∀ call ∈ manager.waiting, Queued tenantID limit call
  nonneg : ∀ call ∈ manager.allowed, ∀ dimension, 0 ≤ call.request.amount dimension
  empty : manager.counters.lookup tenantID = none → manager.allowed = []
  shows : ∀ counter, manager.counters.lookup tenantID = some counter →
    Shows tenantID limit manager.allowed counter
  within : Within tenantID limit manager

section Steps

variable {tenantID : Bytes} {limit : QuotaLimit} {manager : FixedWindowQuotaManager}

theorem usage_nonneg (accounted : Accounted tenantID limit manager) (start : Time)
    (dimension : Dimension) : 0 ≤ usage tenantID limit.window start dimension manager.allowed :=
  total_nonneg fun call member _ => accounted.nonneg call member dimension

/-- A window that starts after all others has no usage yet. -/
theorem usage_eq_zero {allowed : List Allowed} {start : Time}
    (earlier : ∀ call ∈ allowed, quotaWindowStart call.request.now limit.window ≠ start)
    (dimension : Dimension) : usage tenantID limit.window start dimension allowed = 0 :=
  total_eq_zero fun call member => decide_eq_false fun both => earlier call member both.2

theorem usage_queued (allowed : List Allowed) {call : Waiting} (queued : Queued tenantID limit call)
    (start : Time) (dimension : Dimension) :
    usage tenantID limit.window start dimension (allowed ++ [⟨call.tenantID, call.request⟩]) =
      usage tenantID limit.window start dimension allowed +
        if call.windowStart = start then call.request.amount dimension else 0 := by
  rw [usage_concat]
  simp only [queued.tenant, queued.window, true_and]

/-- An eviction spares the counter of the window that a call is in. -/
theorem counterFor_evictStaleLocked {call : Waiting} (queued : Queued tenantID limit call)
    (accounted : Accounted tenantID limit manager) :
    counterFor (evictStaleLocked manager call.request.now).counters call =
      counterFor manager.counters call := by
  unfold evictStaleLocked
  split
  · rfl
  · have kept : ∀ counter, AList.lookup call.tenantID (keepEntries
        (fun _ counter => !decide (counter.windowEnd < call.request.now)) manager.counters) = some counter ↔
        manager.counters.lookup call.tenantID = some counter ∧ ¬ counter.windowEnd < call.request.now := by
      intro counter
      rw [lookup_keepEntries]
      simp
    cases found : manager.counters.lookup call.tenantID with
    | none =>
      have missing : AList.lookup call.tenantID (keepEntries
          (fun _ counter => !decide (counter.windowEnd < call.request.now)) manager.counters) = none := by
        rw [Option.eq_none_iff_forall_ne_some]
        intro counter present
        rw [((kept counter).mp present).1] at found
        cases found
      simp only [counterFor, found, missing]
    | some counter =>
      by_cases stale : counter.windowEnd < call.request.now
      · have missing : AList.lookup call.tenantID (keepEntries
            (fun _ counter => !decide (counter.windowEnd < call.request.now)) manager.counters) = none := by
          rw [Option.eq_none_iff_forall_ne_some]
          intro other present
          obtain ⟨foundOther, notStale⟩ := (kept other).mp present
          exact notStale (Option.some.inj (found.symm.trans foundOther) ▸ stale)
        have different : counter.windowStart ≠ call.windowStart := by
          intro same
          have inWindow := lt_quotaWindowEnd call.request.now limit.window
          rw [queued.tenant] at found
          rw [← queued.window, ← same, ← (accounted.shows counter found).windowEnd] at inWindow
          exact Int.lt_asymm stale inWindow
        simp only [counterFor, found, missing, ne_eq, different, not_false_eq_true, if_true]
      · simp only [counterFor, (kept counter).mpr ⟨found, stale⟩, found]

/-- The counter that a call in order finds: it shows the usage of the window of the call. -/
theorem shows_counterFor {call : Waiting} (queued : Queued tenantID limit call)
    (accounted : Accounted tenantID limit manager)
    (inOrder : ∀ counter ∈ manager.counters.lookup call.tenantID,
      counter.windowStart ≤ call.windowStart) :
    (counterFor manager.counters call).windowStart = call.windowStart ∧
      Shows tenantID limit manager.allowed (counterFor manager.counters call) ∧
      ∀ dimension, (counterFor manager.counters call).used dimension =
        usedBefore manager call dimension := by
  have fresh : (∀ entry ∈ manager.allowed,
      quotaWindowStart entry.request.now limit.window < call.windowStart) →
      Shows tenantID limit manager.allowed
        ⟨call.windowStart, quotaWindowEnd call.windowStart call.limit.window, 0, 0⟩ := by
    intro earlier
    refine ⟨by rw [queued.limited], fun entry member => Int.le_of_lt (earlier entry member), ?_⟩
    intro dimension _
    rw [usage_eq_zero (fun entry member => Int.ne_of_lt (earlier entry member))]
    cases dimension <;> rfl
  have unused : ∀ dimension, QuotaCounter.used
      ⟨call.windowStart, quotaWindowEnd call.windowStart call.limit.window, 0, 0⟩ dimension = 0 := by
    intro dimension
    cases dimension <;> rfl
  cases found : manager.counters.lookup call.tenantID with
  | none =>
    have foundTenant := found
    rw [queued.tenant] at foundTenant
    simp only [counterFor, usedBefore, found]
    refine ⟨trivial, fresh ?_, unused⟩
    rw [accounted.empty foundTenant]
    exact fun entry member => absurd member List.not_mem_nil
  | some counter =>
    have foundTenant := found
    rw [queued.tenant] at foundTenant
    have shows := accounted.shows counter foundTenant
    by_cases same : counter.windowStart = call.windowStart
    · simp only [counterFor, usedBefore, found, ne_eq, same, not_true_eq_false, if_false, if_true]
      exact ⟨trivial, shows, fun _ => trivial⟩
    · have before := Int.lt_iff_le_and_ne.mpr ⟨inOrder counter found, same⟩
      simp only [counterFor, usedBefore, found, ne_eq, same, not_false_eq_true, if_false, if_true]
      refine ⟨trivial, fresh ?_, unused⟩
      exact fun entry member => Int.lt_of_le_of_lt (shows.latest entry member) before

/-- The locked section keeps the accounts of calls in order. -/
theorem Accounted.enter {call : Waiting} (queued : Queued tenantID limit call)
    (accounted : Accounted tenantID limit manager)
    (inOrder : ∀ counter ∈ manager.counters.lookup call.tenantID,
      counter.windowStart ≤ call.windowStart)
    (fits : ∀ dimension, 0 < call.limit.bound dimension →
      usedBefore manager call dimension + call.request.amount dimension < 2 ^ 63) :
    Accounted tenantID limit (FixedWindow.enter manager call).1 := by
  obtain ⟨startEq, shows, usedEq⟩ := shows_counterFor queued accounted inOrder
  have evicted := counterFor_evictStaleLocked queued accounted
  have sameWaiting : (evictStaleLocked manager call.request.now).waiting = manager.waiting := by
    unfold evictStaleLocked
    split <;> rfl
  have sameAllowed : (evictStaleLocked manager call.request.now).allowed = manager.allowed := by
    unfold evictStaleLocked
    split <;> rfl
  have nextEq : ∀ dimension, 0 < limit.bound dimension →
      wrapInt64 ((counterFor manager.counters call).used dimension + call.request.amount dimension) =
        usage tenantID limit.window call.windowStart dimension manager.allowed +
          call.request.amount dimension := by
    intro dimension limited
    have usedIs := shows.used dimension limited
    rw [startEq] at usedIs
    have small := fits dimension (by rw [queued.limited]; exact limited)
    rw [← usedEq dimension, usedIs] at small
    have notNegative := usage_nonneg accounted call.windowStart dimension
    have amountNonneg := queued.nonneg dimension
    rw [usedIs]
    exact wrapInt64_of_inInt64 ⟨by omega, small⟩
  unfold FixedWindow.enter
  simp only [evicted]
  split
  · refine ⟨?_, ?_, ?_, ?_, ?_⟩
    · simp only [sameWaiting]
      exact accounted.queued
    · simp only [sameAllowed]
      exact accounted.nonneg
    · simp only [queued.tenant, AList.lookup_insert]
      exact nofun
    · intro counter found
      simp only [queued.tenant, AList.lookup_insert, Option.some.injEq] at found
      simp only [sameAllowed, ← found]
      exact shows
    · unfold Within
      simp only [sameAllowed]
      exact accounted.within
  · rename_i notOver
    have underBound : ∀ dimension, 0 < limit.bound dimension →
        usage tenantID limit.window call.windowStart dimension manager.allowed +
          call.request.amount dimension ≤ limit.bound dimension := by
      intro dimension limited
      rw [← nextEq dimension limited]
      rw [queued.limited] at notOver
      cases dimension with
      | requests => exact Int.not_lt.mp fun isOver => notOver (.inl ⟨limited, isOver⟩)
      | tokens => exact Int.not_lt.mp fun isOver => notOver (.inr ⟨limited, isOver⟩)
    refine ⟨?_, ?_, ?_, ?_, ?_⟩
    · simp only [sameWaiting]
      exact accounted.queued
    · simp only [sameAllowed]
      intro entry member
      rcases List.mem_append.mp member with old | new
      · exact accounted.nonneg entry old
      · rw [List.mem_singleton.mp new]
        exact queued.nonneg
    · simp only [queued.tenant, AList.lookup_insert]
      exact nofun
    · intro counter found
      simp only [queued.tenant, AList.lookup_insert, Option.some.injEq] at found
      simp only [sameAllowed, ← found]
      refine ⟨shows.windowEnd, ?_, ?_⟩
      · intro entry member
        rcases List.mem_append.mp member with old | new
        · exact shows.latest entry old
        · rw [List.mem_singleton.mp new, startEq, queued.window]
      · intro dimension limited
        have next := nextEq dimension limited
        have concat := usage_queued manager.allowed queued call.windowStart dimension
        rw [if_pos rfl] at concat
        simp only [startEq]
        rw [concat, ← next]
        cases dimension <;> rfl
    · intro dimension limited start
      have concat := usage_queued manager.allowed queued start dimension
      simp only [sameAllowed]
      rw [concat]
      split
      · rename_i same
        rw [← same]
        exact underBound dimension limited
      · rw [Int.add_zero]
        exact accounted.within dimension limited start

theorem accounted_new (tenantID : Bytes) (limit : QuotaLimit) (clock : Time) :
    Accounted tenantID limit (newFixedWindowQuotaManager clock) where
  queued := nofun
  nonneg := nofun
  empty _ := rfl
  shows := nofun
  within := fun _ limited _ => Int.le_of_lt limited

theorem Accounted.step {provider : Bytes → Except GoError QuotaConfig}
    (active : activeLimit provider tenantID = some limit) {op : Op} {next : FixedWindowQuotaManager}
    {out : Option (QuotaResult × Option GoError)} (accounted : Accounted tenantID limit manager)
    (ofTenant : OfTenant tenantID manager op) (inOrder : InOrder manager op)
    (stepEq : (machine provider).step manager op = some (next, out)) :
    Accounted tenantID limit next := by
  cases op with
  | tick elapsed =>
    cases stepEq
    exact ⟨accounted.queued, accounted.nonneg, accounted.empty, accounted.shows, accounted.within⟩
  | allow caller request =>
    obtain ⟨rfl, notNegative⟩ := ofTenant
    simp only [machine, FixedWindow.step] at stepEq
    unfold activeLimit at active
    split at stepEq
    · cases stepEq
      exact accounted
    · rename_i config providerEq
      simp only [providerEq] at active
      split at stepEq
      · cases stepEq
        exact accounted
      · rename_i first rest limitsEq
        rw [limitsEq] at active
        cases active
        split at stepEq
        · cases stepEq
          exact accounted
        · cases stepEq
          refine ⟨?_, accounted.nonneg, accounted.empty, accounted.shows, accounted.within⟩
          intro call member
          rcases List.mem_append.mp member with old | new
          · exact accounted.queued call old
          · rw [List.mem_singleton.mp new]
            exact ⟨rfl, rfl, rfl, nonneg_normalizeQuotaRequest manager.clock notNegative⟩
  | enter call =>
    obtain ⟨waiting, found, same⟩ := Option.map_eq_some_iff.mp stepEq
    cases same
    obtain ⟨notBefore, fits⟩ := inOrder waiting found
    have rest : Accounted tenantID limit { manager with waiting := manager.waiting.eraseIdx call } :=
      ⟨fun other member => accounted.queued other (List.mem_of_mem_eraseIdx member),
        accounted.nonneg, accounted.empty, accounted.shows, accounted.within⟩
    exact rest.enter (accounted.queued waiting (List.mem_of_getElem? found)) notBefore fits

end Steps

/-- In every run of calls of one tenant that reach the lock in the order of their windows, and whose
sums stay within the 64 bits, the allowed calls of a window stay within its limits. -/
theorem within_of_inOrder {provider : Bytes → Except GoError QuotaConfig} {tenantID : Bytes}
    {limit : QuotaLimit} (active : activeLimit provider tenantID = some limit) (clock : Time)
    {ops : List Op} {manager : FixedWindowQuotaManager}
    (ofTenant : (machine provider).Meets (OfTenant tenantID) (newFixedWindowQuotaManager clock) ops)
    (inOrder : (machine provider).Meets InOrder (newFixedWindowQuotaManager clock) ops)
    (reached : (machine provider).Reaches (newFixedWindowQuotaManager clock) ops manager) :
    Within tenantID limit manager := by
  refine (Machine.reaches_invariant ?_ (accounted_new tenantID limit clock)
    (Machine.meets_and.mpr ⟨ofTenant, inOrder⟩) reached).within
  intro before op next out accounted both stepEq
  exact accounted.step active both.1 both.2 stepEq

/-- One request a minute. -/
def oneAMinute : QuotaLimit := ⟨.minute, 1, 0⟩

def sampleProvider (_ : Bytes) : Except GoError QuotaConfig := .ok ⟨[oneAMinute]⟩

/-- A request that takes its time from the clock. -/
def oneRequest : QuotaRequest := ⟨1, 0, zeroTime⟩

/-- Two calls in one minute and one in the next, each after the other. -/
def oneByOne : List Op :=
  [.allow (ascii "t") oneRequest, .enter 0, .allow (ascii "t") oneRequest, .enter 0,
    .tick 60000000000, .allow (ascii "t") oneRequest, .enter 0]

theorem within_oneByOne :
    ∃ manager, (machine sampleProvider).Reaches (newFixedWindowQuotaManager 0) oneByOne manager ∧
      manager.allowed.length = 2 ∧ Within (ascii "t") oneAMinute manager := by
  have ran : ((machine sampleProvider).run (newFixedWindowQuotaManager 0) oneByOne).map
      (fun manager => manager.allowed.length) = some 2 := by decide +kernel
  obtain ⟨manager, ranEq, lengthEq⟩ := Option.map_eq_some_iff.mp ran
  have reached : (machine sampleProvider).Reaches (newFixedWindowQuotaManager 0) oneByOne manager :=
    ⟨_, List.prefix_rfl, ranEq⟩
  exact ⟨manager, reached, lengthEq,
    within_of_inOrder rfl 0 (by decide +kernel) (by decide +kernel) reached⟩

/-- Two calls read the clock in one minute, but a call of the next minute comes between them to the
lock. -/
def acrossTheMinute : List Op :=
  [.allow (ascii "t") oneRequest, .allow (ascii "t") oneRequest, .tick 60000000000,
    .allow (ascii "t") oneRequest, .enter 0, .enter 1, .enter 0]

/-- Then both are allowed, with one request a minute. -/
theorem not_within_acrossTheMinute :
    (machine sampleProvider).Meets (OfTenant (ascii "t")) (newFixedWindowQuotaManager 0) acrossTheMinute ∧
      ∃ manager, (machine sampleProvider).Reaches (newFixedWindowQuotaManager 0) acrossTheMinute manager ∧
        usage (ascii "t") .minute 0 .requests manager.allowed = 2 ∧
        ¬ Within (ascii "t") oneAMinute manager := by
  have ran : ((machine sampleProvider).run (newFixedWindowQuotaManager 0) acrossTheMinute).map
      (fun manager => usage (ascii "t") .minute 0 .requests manager.allowed) = some 2 := by
    decide +kernel
  obtain ⟨manager, ranEq, usageEq⟩ := Option.map_eq_some_iff.mp ran
  refine ⟨by decide +kernel, manager, ⟨_, List.prefix_rfl, ranEq⟩, usageEq, ?_⟩
  intro within
  have few := within .requests (by decide) 0
  rw [oneAMinute, usageEq] at few
  exact absurd few (by decide)

end FixedWindow

end Plumego.Tenant
