/-
Module: Plumego.Tenant.Cache
Purpose: The cache wrapper that scopes keys by tenant, over a cache that is a
  plain map.
Trusted boundary: the wrapped cache keeps what is set until it is deleted; its
  counters and its appending are optional, as the capability interfaces are.
Main exports: TenantCache, TenantCache.scopeKey, Operation, TenantCall, TenantCache.plainStore
-/
import Plumego.Cache.Memory
import Plumego.Go.Strings
import Plumego.Lib.KeyedStore

namespace Plumego.Tenant

open Plumego.Go
open Plumego.Lib

/-- `tenant.ErrTenantNotFound`. -/
def errTenantNotFound : GoError := .new "tenant not found"

/-- `storecache.ErrCapabilityUnsupported`. -/
def errCapabilityUnsupported : GoError := .new "cache: capability unsupported"

/-- The settings of `TenantCache`. -/
structure TenantCache where
  keyPrefix : Bytes := ascii "tenant"
  separator : Bytes := ascii ":"

namespace TenantCache

/-- A byte that no tenant ID may contain. -/
def isControl (byte : UInt8) : Bool := byte < 0x20 || byte == 0x7F

def validateTenantID (cache : TenantCache) (tenantID : Bytes) : Option GoError :=
  if tenantID = [] then some errTenantNotFound
  else if contains tenantID cache.separator then
    some (.errorf "tenant ID cannot contain separator character '%s'" [.bytes cache.separator])
  else
    match tenantID.findIdx? isControl with
    | none => none
    | some position =>
      some (.errorf "tenant ID contains invalid control character at position %d"
        [.int position])

def buildKey (cache : TenantCache) (tenantID key : Bytes) : Bytes :=
  if cache.keyPrefix = [] then tenantID ++ cache.separator ++ key
  else cache.keyPrefix ++ cache.separator ++ tenantID ++ cache.separator ++ key

/-- `scopeKey`, with the tenant ID of the context, empty where it has none. -/
def scopeKey (cache : TenantCache) (tenantID key : Bytes) : Except GoError Bytes :=
  if tenantID = [] then .error errTenantNotFound
  else
    match cache.validateTenantID tenantID with
    | some failure => .error failure
    | none => .ok (cache.buildKey tenantID key)

end TenantCache

/-! ## Calls -/

/-- The operations that work on one key. -/
inductive Operation where
  | get
  | set (value : Bytes) (ttl : Int)
  | delete
  | exists
  | incr (delta : Int)
  | decr (delta : Int)
  | append (data : Bytes)
deriving DecidableEq, Repr

/-- A call with the tenant ID of its context. -/
structure TenantCall where
  tenantID : Bytes
  key : Bytes
  operation : Operation
deriving DecidableEq, Repr

/-- What a call returns. -/
inductive Answer where
  | bytes (value : Bytes)
  | flag (value : Bool)
  | number (value : Int)
  | done
  | failed (failure : GoError)
deriving DecidableEq, Repr

/-- The wrapped cache: which capabilities it has, and how it reads numbers that
are no decimal text. -/
structure Backend where
  counters : Bool
  appends : Bool
  gob : Bytes → Option Int

/-- A counter call of the wrapped cache on the value of its key. -/
def Backend.add (backend : Backend) (delta : Int) (value : Option Bytes) :
    Option Bytes × Answer :=
  if !backend.counters then (value, .failed errCapabilityUnsupported)
  else
    match value.elim (some 0) fun data => Cache.MemoryCache.decodeInt64 backend.gob data with
    | none => (value, .failed Cache.errNotInteger)
    | some current =>
      match Cache.MemoryCache.addInt64 current delta with
      | .error failure => (value, .failed failure)
      | .ok sum => (some (formatInt sum), .number sum)

/-- An operation of the wrapped cache on the value of its key. -/
def Backend.act (backend : Backend) : Operation → Option Bytes → Option Bytes × Answer
  | .get, value => (value, value.elim (.failed Cache.errNotFound) .bytes)
  | .set data _, _ => (some data, .done)
  | .delete, _ => (none, .done)
  | .exists, value => (value, .flag value.isSome)
  | .incr delta, value => backend.add delta value
  | .decr delta, value =>
    if backend.counters && delta == -2 ^ 63 then
      (value, .failed (.wrapf "%w: integer overflow" [] Cache.errNotInteger))
    else backend.add (-delta) value
  | .append data, value =>
    if !backend.appends then (value, .failed errCapabilityUnsupported)
    else (some (value.getD [] ++ data), .done)

/-- The wrapper over a plain map. -/
def TenantCache.plainStore (cache : TenantCache) (backend : Backend) :
    KeyedStore Bytes Bytes TenantCall Answer where
  key call := (cache.scopeKey call.tenantID call.key).toOption
  reject call :=
    match cache.scopeKey call.tenantID call.key with
    | .error failure => .failed failure
    | .ok _ => .done
  act call := backend.act call.operation

end Plumego.Tenant
