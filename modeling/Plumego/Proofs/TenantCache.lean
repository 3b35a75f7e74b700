/-
Module: Plumego.Proofs.TenantCache
Purpose: When the scoped keys of two tenants are always different, and that
  exactly then no tenant's calls change another tenant's results.
Trusted boundary: none
Main exports: TenantCache.SelfOverlapping, TenantCache.KeysApart,
  TenantCache.Isolated, isolated_iff
-/
import Plumego.Tenant.Cache

namespace Plumego.Tenant

open Plumego.Go
open Plumego.Lib

namespace TenantCache

/-! ## Tenant IDs -/

theorem validateTenantID_eq_none {cache : TenantCache} {tenantID : Bytes} :
    cache.validateTenantID tenantID = none ↔
      tenantID ≠ [] ∧ ¬ cache.separator <:+: tenantID ∧
        ∀ byte ∈ tenantID, isControl byte = false := by
  rw [validateTenantID]
  by_cases empty : tenantID = []
  · simp [empty]
  · rw [if_neg empty]
    cases found : contains tenantID cache.separator with
    | true =>
      have inside := contains_eq_true.mp found
      simp [inside]
    | false =>
      have outside := contains_eq_false.mp found
      rw [if_neg (by decide), ← List.findIdx?_eq_none_iff]
      cases tenantID.findIdx? isControl with
      | none => simp [empty, outside]
      | some position => simp

theorem scopeKey_eq_ok {cache : TenantCache} {tenantID key whole : Bytes} :
    cache.scopeKey tenantID key = .ok whole ↔
      cache.validateTenantID tenantID = none ∧ cache.buildKey tenantID key = whole := by
  rw [scopeKey]
  by_cases empty : tenantID = []
  · rw [if_pos empty, validateTenantID, if_pos empty]
    simp
  · rw [if_neg empty]
    cases cache.validateTenantID tenantID with
    | some failure => simp
    | none => simp

theorem buildKey_inj {cache : TenantCache} {first second key other : Bytes} :
    cache.buildKey first key = cache.buildKey second other ↔
      first ++ cache.separator ++ key = second ++ cache.separator ++ other := by
  rw [buildKey, buildKey]
  split
  · exact Iff.rfl
  · simp [List.append_assoc]

/-! ## Separators that overlap themselves -/

/-- The separator starts again inside itself, after bytes that a tenant ID may
contain. -/
def SelfOverlapping (cache : TenantCache) : Prop :=
  ∃ shift rest ending : Bytes, shift ≠ [] ∧ rest ≠ [] ∧
    cache.separator = shift ++ rest ∧ cache.separator = rest ++ ending ∧
    ∀ byte ∈ shift, isControl byte = false

/-- The scoped keys of different tenants are different. -/
def KeysApart (cache : TenantCache) : Prop :=
  ∀ first second, cache.validateTenantID first = none →
    cache.validateTenantID second = none → first ≠ second →
    ∀ key other, cache.buildKey first key ≠ cache.buildKey second other

/-- Two tenants with a common scoped key, the first ID not the longer one. -/
theorem selfOverlapping_of_collision {cache : TenantCache} {first second key other : Bytes}
    (secondValid : cache.validateTenantID second = none) (different : first ≠ second)
    (shorter : first.length ≤ second.length)
    (collision : first ++ cache.separator ++ key = second ++ cache.separator ++ other) :
    cache.SelfOverlapping := by
  obtain ⟨_, secondFree, secondPlain⟩ := validateTenantID_eq_none.mp secondValid
  rw [List.append_assoc, List.append_assoc] at collision
  -- the longer ID starts with the shorter one
  obtain ⟨shift, rfl⟩ : ∃ shift, second = first ++ shift := by
    have secondStarts : second <+: first ++ (cache.separator ++ key) :=
      collision ▸ List.prefix_append second _
    obtain ⟨shift, shape⟩ := List.prefix_of_prefix_length_le (List.prefix_append first _)
      secondStarts shorter
    exact ⟨shift, shape.symm⟩
  rw [List.append_assoc, List.append_cancel_left_eq] at collision
  have shiftStarts : shift <+: cache.separator ++ key :=
    collision ▸ List.prefix_append shift _
  -- the separator is longer than what the longer ID adds, or the ID would contain it
  have longer : shift.length < cache.separator.length := by
    by_contra notLonger
    apply secondFree
    have inside : cache.separator <+: shift :=
      List.prefix_of_prefix_length_le (List.prefix_append cache.separator key) shiftStarts
        (Nat.le_of_not_lt notLonger)
    exact inside.isInfix.trans (List.suffix_append first shift).isInfix
  obtain ⟨rest, shape⟩ := List.prefix_of_prefix_length_le shiftStarts
    (List.prefix_append cache.separator key) (Nat.le_of_lt longer)
  have separatorEq : cache.separator = shift ++ rest := shape.symm
  have restStarts : rest <+: cache.separator := by
    have restEq : rest ++ key = cache.separator ++ other := by
      rw [separatorEq, List.append_assoc, List.append_cancel_left_eq] at collision
      rw [collision, ← separatorEq]
    have restShorter : rest.length ≤ cache.separator.length := by
      rw [separatorEq, List.length_append]
      exact Nat.le_add_left _ _
    have separatorStarts : cache.separator <+: rest ++ key :=
      restEq ▸ List.prefix_append cache.separator other
    exact List.prefix_of_prefix_length_le (List.prefix_append rest key) separatorStarts
      restShorter
  obtain ⟨ending, endingEq⟩ := restStarts
  refine ⟨shift, rest, ending, ?_, ?_, separatorEq, endingEq.symm, ?_⟩
  · rintro rfl
    exact different (List.append_nil first).symm
  · rintro rfl
    rw [List.append_nil] at separatorEq
    rw [separatorEq] at longer
    exact Nat.lt_irrefl _ longer
  · intro byte inside
    exact secondPlain byte (List.mem_append_right first inside)

/-- Two tenants that an overlapping separator confuses, with keys that are
scoped to the same key. -/
theorem collision_of_selfOverlapping {cache : TenantCache} (overlapping : cache.SelfOverlapping) :
    ∃ first second key, cache.validateTenantID first = none ∧
      cache.validateTenantID second = none ∧ first ≠ second ∧
      cache.buildKey first key = cache.buildKey second [] := by
  obtain ⟨shift, rest, ending, shiftSome, restSome, separatorEq, restEq, plain⟩ := overlapping
  obtain ⟨head, tail, shiftEq⟩ := List.exists_cons_of_ne_nil shiftSome
  -- a byte that tenant IDs may contain and the separator does not start with
  obtain ⟨byte, bytePlain, byteOther⟩ : ∃ byte, isControl byte = false ∧ byte ≠ head := by
    by_cases isLetter : head = 0x61
    · exact ⟨0x62, by decide, by rw [isLetter]; decide⟩
    · exact ⟨0x61, by decide, fun same => isLetter same.symm⟩
  have separatorHead : cache.separator = head :: (tail ++ rest) := by
    rw [separatorEq, shiftEq]
    rfl
  have longer : shift.length < cache.separator.length := by
    have positive := List.length_pos_of_ne_nil restSome
    rw [separatorEq, List.length_append]
    omega
  -- the separator neither starts at the new byte nor fits behind it
  have outside : ∀ text : Bytes, text.length < cache.separator.length →
      ¬ cache.separator <:+: byte :: text := by
    intro text short inside
    rcases List.infix_cons_iff.mp inside with starts | later
    · rw [separatorHead] at starts
      obtain ⟨_, shape⟩ := starts
      exact byteOther (List.cons.inj shape).1.symm
    · exact absurd later.length_le (Nat.not_le_of_lt short)
  refine ⟨[byte], byte :: shift, ending, ?_, ?_, ?_, ?_⟩
  · rw [validateTenantID_eq_none]
    refine ⟨List.cons_ne_nil _ _, outside [] ?_, ?_⟩
    · rw [separatorHead]
      exact Nat.succ_pos _
    · intro other inside
      rw [List.mem_singleton.mp inside]
      exact bytePlain
  · rw [validateTenantID_eq_none]
    refine ⟨List.cons_ne_nil _ _, outside shift longer, ?_⟩
    intro other inside
    rcases List.mem_cons.mp inside with rfl | later
    · exact bytePlain
    · exact plain other later
  · intro same
    rw [shiftEq] at same
    cases same
  · rw [buildKey_inj]
    have shape : cache.separator ++ ending = shift ++ cache.separator := by
      rw [restEq]
      rw [restEq] at separatorEq
      rw [← List.append_assoc, ← separatorEq]
    simpa using shape

/-- Keys of different tenants are different exactly if the separator does not
overlap itself. -/
theorem keysApart_iff {cache : TenantCache} : cache.KeysApart ↔ ¬ cache.SelfOverlapping := by
  constructor
  · intro apart overlapping
    obtain ⟨first, second, key, firstValid, secondValid, different, same⟩ :=
      collision_of_selfOverlapping overlapping
    exact apart first second firstValid secondValid different key [] same
  · intro simple first second firstValid secondValid different key other same
    apply simple
    rw [buildKey_inj] at same
    rcases Nat.le_total first.length second.length with shorter | longer
    · exact selfOverlapping_of_collision secondValid different shorter same
    · exact selfOverlapping_of_collision firstValid different.symm longer same.symm

/-! ## Isolation -/

/-- Whatever the wrapped cache holds and is asked, the results of one tenant's
calls are the same with and without the calls of another tenant. -/
def Isolated (cache : TenantCache) (backend : Backend) : Prop :=
  ∀ entries calls tenant other, cache.validateTenantID tenant = none →
    cache.validateTenantID other = none → tenant ≠ other →
    ((cache.plainStore backend).answers entries calls).filter
        (fun answer => answer.1.tenantID == tenant) =
      ((cache.plainStore backend).answers entries
        (calls.filter fun call => call.tenantID != other)).filter
        (fun answer => answer.1.tenantID == tenant)

theorem plainStore_key {cache : TenantCache} {backend : Backend} {call : TenantCall}
    {key : Bytes} :
    (cache.plainStore backend).key call = some key ↔
      cache.validateTenantID call.tenantID = none ∧
        cache.buildKey call.tenantID call.key = key := by
  rw [← scopeKey_eq_ok]
  change (cache.scopeKey call.tenantID call.key).toOption = some key ↔ _
  cases cache.scopeKey call.tenantID call.key with
  | error failure | ok whole => simp [Except.toOption]

/-- Different keys are enough for isolation. -/
theorem KeysApart.isolated {cache : TenantCache} (apart : cache.KeysApart) (backend : Backend) :
    cache.Isolated backend := by
  intro entries calls tenant other _ _ different
  have keysApart : ∀ call : TenantCall, (call.tenantID != other) = false → ∀ key,
      (cache.plainStore backend).key call = some key →
      ∀ kept : TenantCall, (kept.tenantID != other) = true →
        (cache.plainStore backend).key kept ≠ some key := by
    intro call isRemoved key keyEq kept isKept keptEq
    obtain ⟨callValid, callKey⟩ := plainStore_key.mp keyEq
    obtain ⟨keptValid, keptKey⟩ := plainStore_key.mp keptEq
    have tenants : call.tenantID ≠ kept.tenantID := by
      intro same
      rw [same, isKept] at isRemoved
      cases isRemoved
    exact apart _ _ callValid keptValid tenants _ _ (callKey.trans keptKey.symm)
  have removed := KeyedStore.answers_filter keysApart
    (fun _ _ _ _ => rfl : (cache.plainStore backend).SameFor _ entries entries) calls
  rw [← removed, List.filter_filter]
  apply List.filter_congr
  intro answer _
  -- the other tenant's calls are none of this tenant's
  cases isTenant : answer.1.tenantID == tenant with
  | false => rfl
  | true =>
    rw [beq_iff_eq.mp isTenant]
    simpa using different

/-- A common key lets one tenant read what another one has set. -/
theorem not_isolated_of_collision {cache : TenantCache} {backend : Backend}
    {first second key other : Bytes} (firstValid : cache.validateTenantID first = none)
    (secondValid : cache.validateTenantID second = none) (different : first ≠ second)
    (collision : cache.buildKey first key = cache.buildKey second other) :
    ¬ cache.Isolated backend := by
  intro isolated
  have firstKey : (cache.plainStore backend).key ⟨first, key, .get⟩ =
      some (cache.buildKey first key) :=
    plainStore_key.mpr ⟨firstValid, rfl⟩
  have secondKey : (cache.plainStore backend).key ⟨second, other, .set [] 0⟩ =
      some (cache.buildKey first key) :=
    plainStore_key.mpr ⟨secondValid, collision.symm⟩
  have unchanged := isolated ∅ [⟨second, other, .set [] 0⟩, ⟨first, key, .get⟩] first second
    firstValid secondValid different
  have secondOther : (second == first) = false := by simpa using different.symm
  have firstOther : (first != second) = true := by simpa using different
  have actsGet : ∀ value, (cache.plainStore backend).act ⟨first, key, .get⟩ value =
      (value, value.elim (.failed Cache.errNotFound) .bytes) := fun _ => rfl
  have actsSet : ∀ value, (cache.plainStore backend).act ⟨second, other, .set [] 0⟩ value =
      (some [], .done) := fun _ => rfl
  simp [KeyedStore.answers, KeyedStore.step, firstKey, secondKey, actsGet, actsSet, secondOther,
    firstOther, KeyedStore.lookup_write] at unchanged

end TenantCache

/-- The scoped keys of different tenants are always different, and no tenant's
calls change another tenant's results, exactly if the separator does not start
again inside itself after bytes that tenant IDs may contain. -/
theorem isolated_iff (cache : TenantCache) (backend : Backend) :
    (cache.KeysApart ↔ ¬ cache.SelfOverlapping) ∧
      (cache.Isolated backend ↔ ¬ cache.SelfOverlapping) := by
  refine ⟨TenantCache.keysApart_iff, ?_, ?_⟩
  · intro isolated overlapping
    obtain ⟨first, second, key, firstValid, secondValid, different, collision⟩ :=
      TenantCache.collision_of_selfOverlapping overlapping
    exact TenantCache.not_isolated_of_collision firstValid secondValid different collision isolated
  · intro simple
    exact (TenantCache.keysApart_iff.mpr simple).isolated backend

/-- With the separator `::`, the tenant `x` reads what the tenant `x:` has
set. -/
theorem doubleColon_leaks :
    let cache : TenantCache := { separator := ascii "::" }
    let backend : Backend := ⟨true, true, fun _ => none⟩
    let calls : List TenantCall :=
      [⟨ascii "x:", ascii "k", .set (ascii "secret") 0⟩, ⟨ascii "x", ascii ":k", .get⟩]
    cache.validateTenantID (ascii "x") = none ∧ cache.validateTenantID (ascii "x:") = none ∧
      cache.buildKey (ascii "x") (ascii ":k") = cache.buildKey (ascii "x:") (ascii "k") ∧
      ((cache.plainStore backend).answers ∅ calls).map Prod.snd =
        [.done, .bytes (ascii "secret")] ∧
      ((cache.plainStore backend).answers ∅
        (calls.filter fun call => call.tenantID != ascii "x:")).map Prod.snd =
        [.failed Cache.errNotFound] := by
  decide +kernel

/-- A separator of one byte never overlaps itself. -/
example (byte : UInt8) (keyPrefix : Bytes) :
    ¬ TenantCache.SelfOverlapping ⟨keyPrefix, [byte]⟩ := by
  rintro ⟨shift, rest, ending, shiftSome, restSome, shape, _⟩
  have lengths := congrArg List.length shape
  have shiftLong := List.length_pos_of_ne_nil shiftSome
  have restLong := List.length_pos_of_ne_nil restSome
  simp only [List.length_append, List.length_singleton] at lengths
  omega

end Plumego.Tenant
