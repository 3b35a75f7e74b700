/-
Module: Plumego.Proofs.QuotaStore
Purpose: What the allowed calls of a tenant use in one window.
Trusted boundary: as for the quota manager.
Main exports: Dimension, usage, usage_concat
-/
import Plumego.Lib.Counting
import Plumego.Tenant.Quota

namespace Plumego.Tenant

open Plumego.Go Plumego.Lib

/-- What a limit is about. -/
inductive Dimension where
  | requests
  | tokens
deriving DecidableEq, Repr

instance decidableForallDimension {property : Dimension → Prop} [∀ dimension, Decidable (property dimension)] :
    Decidable (∀ dimension, property dimension) :=
  decidable_of_iff (property .requests ∧ property .tokens)
    ⟨fun both dimension => by cases dimension; exacts [both.1, both.2], fun all => ⟨all _, all _⟩⟩

def QuotaRequest.amount (request : QuotaRequest) : Dimension → Int
  | .requests => request.requests
  | .tokens => request.tokens

def QuotaLimit.bound (limit : QuotaLimit) : Dimension → Int
  | .requests => limit.requests
  | .tokens => limit.tokens

/-- What the allowed calls of a tenant use in the window that starts at an instant. -/
def usage (tenantID : Bytes) (window : QuotaWindow) (start : Time) (dimension : Dimension)
    (allowed : List Allowed) : Int :=
  total (fun call => call.tenantID = tenantID ∧ quotaWindowStart call.request.now window = start)
    (fun call => call.request.amount dimension) allowed

/-- An allowed call counts in the window of its request. -/
theorem usage_concat (tenantID : Bytes) (window : QuotaWindow) (start : Time) (dimension : Dimension)
    (allowed : List Allowed) (entry : Allowed) :
    usage tenantID window start dimension (allowed ++ [entry]) =
      usage tenantID window start dimension allowed +
        if entry.tenantID = tenantID ∧ quotaWindowStart entry.request.now window = start then
          entry.request.amount dimension
        else 0 := by
  unfold usage
  rw [total_concat]
  simp only [decide_eq_true_eq]

/-- After its defaults a request has no negative amount. -/
theorem nonneg_normalizeQuotaRequest {request : QuotaRequest} (clock : Time)
    (tokens : 0 ≤ request.tokens) (dimension : Dimension) :
    0 ≤ (normalizeQuotaRequest clock request).amount dimension := by
  cases dimension with
  | requests =>
    simp only [QuotaRequest.amount, normalizeQuotaRequest]
    split <;> omega
  | tokens => exact tokens

end Plumego.Tenant
