/-
Module: Plumego.Router.Registration
Purpose: Route registration: the shared router state, the validation steps with
  their errors, `AddRoute` with its walk down the trie, and what the router tells
  about its routes.
Trusted boundary: `sort.Slice` and the order of a `range` loop are left open.
Main exports: RouteMeta, RouterState, Outcome, insertRoute, addRoute, routes, namedRoutesCopy
-/
import Plumego.Go.Order
import Plumego.Go.Utf8
import Plumego.Router.Matcher

namespace Plumego.Router

open Go

/-- `RouteMeta`. -/
structure RouteMeta where
  name : Bytes := []
  tags : List Bytes := []
deriving DecidableEq, Repr

/-- `RouteOption`: a function that edits the metadata under construction. -/
abbrev RouteOption := RouteMeta → RouteMeta

/-- `routeMetaFromOptions`; nil options are skipped. -/
def routeMetaFromOptions (opts : List (Option RouteOption)) : RouteMeta :=
  opts.foldl (fun info opt => match opt with
    | some edit => edit info
    | none => info) {}

/-- `route`: one registered route. -/
structure Route where
  method : Bytes
  path : Bytes
  info : RouteMeta
deriving DecidableEq, Repr

/-- `NamedRoute`. -/
structure NamedRoute where
  method : Bytes
  pattern : Bytes
  paramPos : StringMap Nat

/-- `routerState`: the mutable state shared by a router and its groups. -/
structure RouterState (H : Type) where
  trees : StringMap (Node H) := ∅
  routes : StringMap (List Route) := ∅
  matchCache : MatchCache H
  namedRoutes : StringMap NamedRoute := ∅
  methodNotAllowed : Bool := false
  frozen : Bool := false

/-- The state of `NewRouter(WithCacheCapacity(n))`. -/
def newRouterState (H : Type) (capacity : Int) : RouterState H :=
  { matchCache := newMatchCache H
      (if 0 < capacity then capacity else defaultCacheCapacity) }

/-! ## Validation -/

/-- `isHTTPTokenChar`. -/
def isHTTPTokenChar (byte : UInt8) : Bool :=
  (48 ≤ byte && byte ≤ 57) || (65 ≤ byte && byte ≤ 90) ||
    (97 ≤ byte && byte ≤ 122) ||
    (ascii "!#$%&'*+-.^_`|~").contains byte

/-- The byte loop of `validateMethod`. -/
def validateMethodBytes (method : Bytes) : Bytes → Option GoError
  | [] => none
  | byte :: rest =>
    if byte = 32 ∨ byte = 9 ∨ byte = 10 ∨ byte = 13 then
      some (.errorf "method %q contains whitespace" [.bytes method])
    else if isHTTPTokenChar byte = false then
      some (.errorf "method %q contains invalid token character %q"
        [.bytes method, .int byte.toNat])
    else validateMethodBytes method rest

/-- `validateMethod`. -/
def validateMethod (method : Bytes) : Option GoError :=
  if method = [] then some (.new "empty method")
  else if trimSpace method ≠ method then
    some (.errorf "method %q has surrounding whitespace" [.bytes method])
  else validateMethodBytes method method

/-- `validateRoutePath`. -/
def validateRoutePath (path : Bytes) : Option GoError :=
  if path ≠ [] ∧ path.head? ≠ some slash then
    some (.errorf "route path %q must start with /" [.bytes path])
  else none

/-- `isParamNameStart`. -/
def isParamNameStart (byte : UInt8) : Bool :=
  byte == 95 || (65 ≤ byte && byte ≤ 90) || (97 ≤ byte && byte ≤ 122)

/-- `isParamNameChar`. -/
def isParamNameChar (byte : UInt8) : Bool :=
  isParamNameStart byte || (48 ≤ byte && byte ≤ 57)

/-- `isRouteParamName`. -/
def isRouteParamName : Bytes → Bool
  | [] => false
  | first :: rest => isParamNameStart first && rest.all isParamNameChar

/-- The error of one iteration of the `validateRouteSegments` loop; `last`
says that the segment is the final one. -/
def segmentError (path : Bytes) (seg : Segment) (last : Bool) : Option GoError :=
  if seg.raw = [] then
    some (.errorf "route pattern %s has empty path segment" [.bytes path])
  else if seg.isParam ∧ seg.paramName = [] then
    some (.errorf "route pattern %s has empty parameter name" [.bytes path])
  else if seg.isParam ∧ isRouteParamName seg.paramName = false then
    some (.errorf "route pattern %s has invalid parameter name %q"
      [.bytes path, .bytes seg.paramName])
  else if seg.isWild ∧ seg.paramName = [] then
    some (.errorf "route pattern %s has empty wildcard name" [.bytes path])
  else if seg.isWild ∧ isRouteParamName seg.paramName = false then
    some (.errorf "route pattern %s has invalid wildcard name %q"
      [.bytes path, .bytes seg.paramName])
  else if seg.isWild ∧ last = false then
    some (.errorf "route pattern %s has non-terminal wildcard segment"
      [.bytes path])
  else none

/-- The loop of `validateRouteSegments` with the names seen so far. -/
def validateSegmentsFrom (path : Bytes) (seenParams : List Bytes) :
    List Segment → Option GoError
  | [] => none
  | seg :: rest =>
    match segmentError path seg rest.isEmpty with
    | some failure => some failure
    | none =>
      if seg.isParam ∨ seg.isWild then
        if seg.paramName ∈ seenParams then
          some (.errorf "route pattern %s has duplicate parameter name %q"
            [.bytes path, .bytes seg.paramName])
        else validateSegmentsFrom path (seg.paramName :: seenParams) rest
      else validateSegmentsFrom path seenParams rest

/-- `validateRouteSegments`. -/
def validateRouteSegments (path : Bytes) (segments : List Segment) :
    Option GoError :=
  validateSegmentsFrom path [] segments

/-! ## The walk down the trie -/

/-- How a registration ends: a runtime panic, or a return with the new state
and the returned error. -/
inductive Outcome (S : Type) where
  | panic
  | ret (state : S) (failure : Option GoError)

/-- Apply a function to the state of an outcome. -/
def Outcome.map {S T : Type} (transform : S → T) : Outcome S → Outcome T
  | .panic => .panic
  | .ret state failure => .ret (transform state) failure

variable {H : Type}

/-- The data `finalizeRouteRegistrationLocked` writes to the last node. -/
structure Payload (H : Type) where
  handler : H
  paramKeys : List Bytes
  fullPath : Bytes
  routeName : Bytes

/-- The node half of `finalizeRouteRegistrationLocked`. -/
def finalizeNode (method : Bytes) (payload : Payload H) (current : Node H) :
    Outcome (Node H) :=
  if current.handler.isSome then
    .ret current (some (.errorf
      "router add_route %s %s: duplicate route registration"
      [.bytes method, .bytes payload.fullPath]))
  else
    .ret { current with
      handler := some payload.handler
      paramKeys := payload.paramKeys
      fullPath := payload.fullPath
      routeName := payload.routeName } none

/-- Replace the child at a position. -/
def Node.setChild (parent : Node H) (index : Nat) (child : Node H) : Node H :=
  { parent with children := parent.children.set index child }

/-- The child a segment descends to: the reserved children are looked up by
their first byte, static ones by the whole segment. -/
def findSegmentIndex (current : Node H) (seg : Segment) : Option Nat :=
  if seg.isParam then findIndexByByte current colon
  else if seg.isWild then findIndexByByte current star
  else findStaticIndex current seg.raw

/-- The node created for a segment that has no child yet. -/
def newSegmentNode (seg : Segment) : Node H :=
  if seg.isParam then { path := [colon], paramName := seg.paramName }
  else if seg.isWild then { path := [star], paramName := seg.paramName }
  else { path := seg.raw }

/-- The conflict message of a parameter or wildcard segment. -/
def conflictFormat (seg : Segment) : String :=
  if seg.isParam then
    "router add_route %s %s: route conflict: parameter name mismatch. " ++
      "existing: %s, new: %s"
  else
    "router add_route %s %s: route conflict: wildcard parameter name " ++
      "mismatch. existing: %s, new: %s"

/-- Enter an existing child: a parameter or wildcard child must carry the
segment's name, and an empty name is filled in. `none` is a name mismatch. -/
def enterChild (seg : Segment) (child : Node H) : Option (Node H) :=
  if seg.isParam ∨ seg.isWild then
    if child.paramName = [] then some { child with paramName := seg.paramName }
    else if child.paramName ≠ seg.paramName then none
    else some child
  else some child

/-- The walk of `AddRoute` over the segments of a pattern: enter the child of
each segment, inserting a new one where it is missing. -/
def insertRoute (method : Bytes) (payload : Payload H) :
    Node H → List Segment → Outcome (Node H)
  | current, [] => finalizeNode method payload current
  | current, seg :: rest =>
    match findSegmentIndex current seg with
    | some index =>
      match current.children[index]? with
      | none => .panic
      | some child =>
        match enterChild seg child with
        | none =>
          .ret current (some (.errorf (conflictFormat seg)
            [.bytes method, .bytes payload.fullPath,
              .bytes child.paramName, .bytes seg.paramName]))
        | some child =>
          (insertRoute method payload child rest).map
            (current.setChild index)
    | none =>
      match insertChild current (newSegmentNode seg) with
      | none => .panic
      | some (grown, index) =>
        (insertRoute method payload (newSegmentNode seg) rest).map
          (grown.setChild index)

/-! ## AddRoute -/

/-- The names of the parameter and wildcard segments, in order: `paramKeys` as
the walk accumulates it. -/
def segmentParamKeys (segments : List Segment) : List Bytes :=
  (segments.filter fun seg => seg.isParam || seg.isWild).map (·.paramName)

/-- The parameter positions `registerNamedRoute` collects. -/
def namedParamPos (pattern : Bytes) : StringMap Nat :=
  ((split slash (trimSides slash pattern)).foldl (fun found part =>
    if part.head? = some colon ∨ part.head? = some star then
      (found.1.insert part.tail found.2, found.2 + 1)
    else found) ((∅ : StringMap Nat), 0)).1

/-- `registerNamedRoute`. -/
def registerNamedRoute (state : RouterState H) (name method pattern : Bytes) :
    RouterState H :=
  { state with
    namedRoutes := state.namedRoutes.insert name
      { method := method, pattern := pattern, paramPos := namedParamPos pattern } }

/-- `validateRouteMetaLocked`. -/
def validateRouteMeta (state : RouterState H) (info : RouteMeta) :
    Option GoError :=
  if info.name = [] then none
  else
    match state.namedRoutes.lookup info.name with
    | none => none
    | some existing => some (.wrapf "%w: %q already registered for %s %s"
        [.bytes info.name, .bytes existing.method, .bytes existing.pattern]
        (.new "duplicate route name"))

/-- Store the tree of a method. -/
def RouterState.setTree (state : RouterState H) (method : Bytes)
    (tree : Node H) : RouterState H :=
  { state with trees := state.trees.insert method tree }

/-- The state half of `finalizeRouteRegistrationLocked`: the name, the route
list and the match cache. -/
def recordRoute (state : RouterState H) (method full : Bytes)
    (info : RouteMeta) : RouterState H :=
  let named :=
    if info.name ≠ [] then registerNamedRoute state info.name method full
    else state
  { named with
    routes := named.routes.insert method
      ((named.routes.lookup method).getD [] ++
        [{ method := method, path := full, info := info }])
    matchCache := named.matchCache.clear }

/-- Wrap an error the way `AddRoute` reports it. -/
def addRouteError (method path : Bytes) (cause : GoError) : GoError :=
  .wrapf "router add_route %s %s: %w" [.bytes method, .bytes path] cause

/-- The arguments of one `AddRoute` call. `groups` are the prefixes of the
`Group` calls the receiver was obtained by, outermost first; a nil handler is
`none`. -/
structure RouteCall (H : Type) where
  groups : List Bytes := []
  method : Bytes
  path : Bytes
  handler : Option H
  opts : List (Option RouteOption) := []

namespace RouteCall

/-- The prefix of the receiver: each `Group` call nests one more prefix. -/
def pre (call : RouteCall H) : Bytes :=
  call.groups.foldl normalizeGroupPrefix []

/-- The pattern the call stores. -/
def full (call : RouteCall H) : Bytes := fullPath call.pre call.path

/-- The segments the call walks; none for the root pattern. -/
def segments (call : RouteCall H) : List Segment :=
  compilePathSegments call.full

/-- The metadata of the call. -/
def info (call : RouteCall H) : RouteMeta := routeMetaFromOptions call.opts

end RouteCall

/-- The checks of `AddRoute` before the trie is touched, in source order, with
the handler they let through. -/
def checkCall (state : RouterState H) (call : RouteCall H) :
    Except GoError H :=
  if state.frozen then
    .error (.errorf "router add_route %s %s: router is frozen"
      [.bytes call.method, .bytes call.path])
  else
    match validateMethod call.method with
    | some cause => .error (addRouteError call.method call.path cause)
    | none =>
      match call.handler with
      | none => .error (.errorf "router add_route %s %s: nil handler"
          [.bytes call.method, .bytes call.path])
      | some handler =>
        match validateRoutePath call.path with
        | some cause => .error (addRouteError call.method call.path cause)
        | none =>
          match validateRouteMeta state call.info with
          | some cause =>
            .error (addRouteError call.method call.full cause)
          | none => .ok handler

/-- The tree the walk starts from; `AddRoute` creates an empty root first. -/
def RouterState.treeOrNew (state : RouterState H) (method : Bytes) : Node H :=
  (state.trees.lookup method).getD {}

/-- The payload the call writes to its last node. -/
def RouteCall.payload (call : RouteCall H) (handler : H) : Payload H :=
  { handler := handler
    paramKeys := segmentParamKeys call.segments
    fullPath := call.full
    routeName := call.info.name }

/-- `AddRoute` on an initialised router. -/
def addRoute (state : RouterState H) (call : RouteCall H) :
    Outcome (RouterState H) :=
  match checkCall state call with
  | .error failure => .ret state (some failure)
  | .ok handler =>
    let root := state.treeOrNew call.method
    let state := state.setTree call.method root
    match validateRouteSegments call.full call.segments with
    | some cause =>
      .ret state (some (addRouteError call.method call.full cause))
    | none =>
      match insertRoute call.method (call.payload handler) root
          call.segments with
      | .panic => .panic
      | .ret tree none =>
        .ret (recordRoute (state.setTree call.method tree) call.method
          call.full call.info) none
      | .ret tree (some failure) =>
        .ret (state.setTree call.method tree) (some failure)

/-! ## Snapshots -/

/-- The comparison of `Routes`: by method, then by path. -/
def routeLess (left right : Route) : Bool :=
  if left.method = right.method then decide (left.path < right.path)
  else decide (left.method < right.method)

/-- `Routes`: the routes of every method in one list, then sorted. `RouteInfo`
has the fields of the stored route. -/
def routes (visit : MapOrder (List Route)) (arrange : SliceSort routeLess)
    (state : RouterState H) : List Route :=
  arrange.sort ((visit.list state.routes).flatMap Prod.snd)

/-- `NamedRoutes`: every entry is copied, with a copy of its positions. -/
def namedRoutesCopy (state : RouterState H) : StringMap NamedRoute :=
  mapValues (fun _ named =>
    { method := named.method
      pattern := named.pattern
      paramPos := mapValues (fun _ position => position) named.paramPos })
    state.namedRoutes

end Plumego.Router
