/-
Module: Plumego.Router.Dispatch
Purpose: Request dispatch: `matchRoute` with its method fallbacks, the `Allow`
  list, and `ServeHTTP` with the match cache in front of the matcher.
Trusted boundary: handlers are opaque values; what a handler writes is not
  modelled.
Main exports: matchRoute, allowedMethods, Response, serveHTTP
-/
import Plumego.Go.Order
import Plumego.Router.Matcher
import Plumego.Router.Registration

namespace Plumego.Router

open Go

variable {H : Type}

/-- `MethodAny`. -/
def methodAny : Bytes := ascii "ANY"

/-- `http.MethodGet`. -/
def methodGet : Bytes := ascii "GET"

/-- `http.MethodHead`. -/
def methodHead : Bytes := ascii "HEAD"

/-- `maxInlineParams` of the route context. -/
def maxInlineParams : Nat := 8

/-- The match of one method's tree: the root handler for the path `/`, the trie
walk otherwise. -/
def matchTree (state : RouterState H) (method path : Bytes) :
    Option (MatchResult H) :=
  (state.trees.lookup method).bind fun tree =>
    if path = [slash] then
      tree.handler.map fun handler =>
        { handler := handler
          routePattern := [slash]
          routeMethod := method
          routeName := tree.routeName }
    else
      (matchNode tree (splitPathToParts path) path).map fun result =>
        { result with routeMethod := method }

/-- `matchRoute`: the request's method, then GET for HEAD, then ANY. -/
def matchRoute (state : RouterState H) (method path : Bytes) :
    Option (MatchResult H) :=
  let direct := if method ≠ methodAny then matchTree state method path else none
  let asGet := if method = methodHead then matchTree state methodGet path else none
  (direct.or asGet).or (matchTree state methodAny path)

/-- `sort.Strings`. -/
def sortStrings (texts : List Bytes) : List Bytes :=
  texts.mergeSort fun left right => decide (left ≤ right)

/-- `appendImplicitHeadMethod`. -/
def appendImplicitHeadMethod (methods : List Bytes) : List Bytes :=
  if methodGet ∉ methods ∨ methodHead ∈ methods then methods
  else sortStrings (methods ++ [methodHead])

/-- `allowedMethods`; the map is iterated in any order and the list sorted. -/
def allowedMethods (state : RouterState H) (path : Bytes) : List Bytes :=
  let normalized := if path = [] then [slash] else path
  let allowed := state.trees.keys.filter fun method =>
    method ≠ methodAny ∧ (matchTree state method normalized).isSome
  let allowed := if 1 < allowed.length then sortStrings allowed else allowed
  appendImplicitHeadMethod allowed

/-- The route context a handler is called with. -/
structure RouteContext where
  pattern : Bytes
  name : Bytes
  params : List (Bytes × Bytes)
deriving DecidableEq, Repr

/-- What a request ends in: a call of a handler (with body writes discarded for
HEAD), the method-not-allowed error with its `Allow` list, or a 404. -/
inductive Response (H : Type) where
  | serve (handler : H) (context : RouteContext) (noBody : Bool)
  | methodNotAllowed (allow : List Bytes)
  | notFound
deriving DecidableEq, Repr

/-- `responseWriterForMatch` and `attachRouteContextAndServe`: pair the keys
with the values, as far as both go and the context has room. -/
def attachRouteContextAndServe (method : Bytes) (result : MatchResult H) :
    Response H :=
  .serve result.handler
    { pattern := result.routePattern
      name := result.routeName
      params := (result.paramKeys.zip result.paramValues).take maxInlineParams }
    (method == methodHead)

/-- The key of a request in the match cache. -/
def cacheKey (method path : Bytes) : Bytes := method ++ colon :: path

/-- The answer to a request that no route matches. -/
def unmatchedResponse (state : RouterState H) (path : Bytes) : Response H :=
  if state.methodNotAllowed then
    match allowedMethods state path with
    | [] => .notFound
    | allowed => .methodNotAllowed allowed
  else .notFound

/-- `ServeHTTP`: answer from the cache, else match and remember the result. -/
def serveHTTP (state : RouterState H) (method urlPath : Bytes) :
    RouterState H × Response H :=
  let path := fastNormalizePath urlPath
  match state.matchCache.get (cacheKey method path) with
  | some cachedResult => (state, attachRouteContextAndServe method cachedResult)
  | none =>
    match matchRoute state method path with
    | none => (state, unmatchedResponse state path)
    | some result =>
      ({ state with
          matchCache := state.matchCache.set (cacheKey method path) result },
        attachRouteContextAndServe method result)

/-- `SetMethodNotAllowed`; ignored once the router is frozen. -/
def setMethodNotAllowed (state : RouterState H) (enabled : Bool) :
    RouterState H :=
  if state.frozen then state else { state with methodNotAllowed := enabled }

/-- `Freeze`. -/
def freeze (state : RouterState H) : RouterState H :=
  { state with frozen := true }

end Plumego.Router
