/-
Module: Plumego.Proofs.RouterCache
Purpose: The match cache never changes an answer. Over every run of
  registrations, settings and requests, `ServeHTTP` answers as a router that
  always matches; the cache keeps its ring and its map in step.
Trusted boundary: none
Main exports: CacheInv, SameMatch, insertRoute_failed, RouterOp, cachedRouter,
  uncachedRouter, cache_transparent
-/
import Plumego.Lib.Circle
import Plumego.Lib.Machine
import Plumego.Proofs.RouterTable
import Plumego.Router.Dispatch

namespace Plumego.Router

open Go
open Lib (Machine)

variable {H : Type}

/-! ## The ring and the map -/

/-- The cache keeps its ring and its map in step: the keys of the map are the
live slots, each once. -/
structure CacheInv (capacity : Nat) (cache : MatchCache H) : Prop where
  capacityEq : cache.capacity = capacity
  positive : 0 < capacity
  ring : cache.ring.length = capacity
  head : cache.head < capacity
  size : cache.size ≤ capacity
  nodup : cache.liveSlots.Nodup
  keys : ∀ key, key ∈ cache.data ↔ key ∈ cache.liveSlots

theorem liveSlots_eq (cache : MatchCache H) :
    cache.liveSlots =
      Lib.Ring.live [] cache.ring cache.capacity cache.head cache.size := rfl

theorem cacheInv_new {capacity : Nat} (positive : 0 < capacity) :
    CacheInv capacity (newMatchCache H capacity) := by
  have cacheEq : newMatchCache H capacity =
      { capacity := capacity, ring := List.replicate capacity [] } := by
    simp [newMatchCache, show capacity ≠ 0 by omega]
  rw [cacheEq]
  exact
    { capacityEq := rfl
      positive := positive
      ring := List.length_replicate
      head := positive
      size := Nat.zero_le capacity
      nodup := List.nodup_nil
      keys := by simp [MatchCache.liveSlots] }

theorem CacheInv.clear {capacity : Nat} {cache : MatchCache H}
    (inv : CacheInv capacity cache) : CacheInv capacity cache.clear where
  capacityEq := inv.capacityEq
  positive := inv.positive
  ring := by rw [MatchCache.clear, List.length_replicate, inv.capacityEq]
  head := inv.positive
  size := Nat.zero_le capacity
  nodup := List.nodup_nil
  keys := by simp [MatchCache.clear, MatchCache.liveSlots]

theorem CacheInv.overwrite {capacity : Nat} {cache : MatchCache H}
    (inv : CacheInv capacity cache) {key : Bytes} (value : MatchResult H)
    (member : key ∈ cache.data) :
    CacheInv capacity { cache with data := cache.data.insert key value } :=
  { inv with
    keys := by
      intro other
      rw [AList.mem_insert, inv.keys other]
      constructor
      · rintro (rfl | old)
        · exact (inv.keys other).mp member
        · exact old
      · exact Or.inr }

/-- A new key over the oldest slot of a full ring. -/
theorem CacheInv.evict {capacity : Nat} {cache : MatchCache H}
    (inv : CacheInv capacity cache) {key : Bytes} (value : MatchResult H)
    (fresh : key ∉ cache.data) (full : cache.size = capacity) :
    CacheInv capacity { cache with
      data := (cache.data.erase (cache.ring.getD cache.head [])).insert key value
      ring := cache.ring.set cache.head key
      head := (cache.head + 1) % cache.capacity } := by
  have slots : cache.liveSlots =
      cache.ring.getD cache.head [] :: cache.liveSlots.tail := by
    rw [liveSlots_eq, inv.capacityEq, full]
    exact Lib.Ring.live_full [] inv.positive inv.head
  have rotated : Lib.Ring.live [] (cache.ring.set cache.head key) capacity
      ((cache.head + 1) % capacity) capacity = cache.liveSlots.tail ++ [key] := by
    rw [liveSlots_eq, inv.capacityEq, full]
    exact Lib.Ring.live_rotate [] key inv.ring inv.head
  have absent : key ∉ cache.liveSlots := fun live => fresh ((inv.keys key).mpr live)
  have nodup := inv.nodup
  have keys := inv.keys
  generalize cache.liveSlots.tail = rest at slots rotated
  rw [slots] at absent nodup
  rw [List.nodup_cons] at nodup
  rw [List.mem_cons, not_or] at absent
  refine
    { capacityEq := inv.capacityEq
      positive := inv.positive
      ring := by rw [List.length_set, inv.ring]
      head := by
        rw [inv.capacityEq]
        exact Nat.mod_lt _ inv.positive
      size := inv.size
      nodup := ?_
      keys := ?_ }
  · rw [liveSlots_eq]
    simp only [inv.capacityEq, full, rotated]
    rw [List.nodup_append_comm]
    exact List.nodup_cons.mpr ⟨absent.2, nodup.2⟩
  · intro other
    rw [liveSlots_eq]
    simp only [inv.capacityEq, full, rotated]
    rw [AList.mem_insert, AList.mem_erase, keys other, slots, List.mem_append,
      List.mem_cons, List.mem_singleton]
    constructor
    · rintro (new | ⟨kept, oldest | old⟩)
      · exact Or.inr new
      · exact absurd oldest kept
      · exact Or.inl old
    · rintro (old | new)
      · exact Or.inr ⟨fun oldest => nodup.1 (oldest ▸ old), Or.inr old⟩
      · exact Or.inl new

/-- A new key in the first free slot. -/
theorem CacheInv.append {capacity : Nat} {cache : MatchCache H}
    (inv : CacheInv capacity cache) {key : Bytes} (value : MatchResult H)
    (fresh : key ∉ cache.data) (room : cache.size < capacity) :
    CacheInv capacity { cache with
      data := cache.data.insert key value
      ring := cache.ring.set ((cache.head + cache.size) % cache.capacity) key
      size := cache.size + 1 } := by
  have pushed : Lib.Ring.live []
      (cache.ring.set ((cache.head + cache.size) % capacity) key) capacity cache.head
      (cache.size + 1) = cache.liveSlots ++ [key] := by
    rw [liveSlots_eq, inv.capacityEq]
    exact Lib.Ring.live_push [] key inv.ring room
  have absent : key ∉ cache.liveSlots := fun live => fresh ((inv.keys key).mpr live)
  refine
    { capacityEq := inv.capacityEq
      positive := inv.positive
      ring := by rw [List.length_set, inv.ring]
      head := inv.head
      size := room
      nodup := ?_
      keys := ?_ }
  · rw [liveSlots_eq]
    simp only [inv.capacityEq, pushed]
    rw [List.nodup_append_comm]
    exact List.nodup_cons.mpr ⟨absent, inv.nodup⟩
  · intro other
    rw [liveSlots_eq]
    simp only [inv.capacityEq, pushed]
    rw [AList.mem_insert, inv.keys other, List.mem_append, List.mem_singleton,
      or_comm]

/-- `Set` keeps the ring and the map in step. -/
theorem CacheInv.set {capacity : Nat} {cache : MatchCache H}
    (inv : CacheInv capacity cache) (key : Bytes) (value : MatchResult H) :
    CacheInv capacity (cache.set key value) := by
  have size := inv.size
  have capacityEq := inv.capacityEq
  unfold MatchCache.set
  by_cases present : (cache.data.lookup key).isSome = true
  · rw [if_pos present]
    exact inv.overwrite value (AList.lookup_isSome.mp present)
  · rw [if_neg present]
    have fresh : key ∉ cache.data := fun member =>
      present (AList.lookup_isSome.mpr member)
    by_cases full : cache.capacity ≤ cache.size
    · rw [if_pos full]
      exact inv.evict value fresh (by omega)
    · rw [if_neg full]
      exact inv.append value fresh (by omega)

/-- The map never outgrows the capacity. -/
theorem CacheInv.bounded {capacity : Nat} {cache : MatchCache H}
    (inv : CacheInv capacity cache) : cache.data.keys.length ≤ capacity := by
  have perm : cache.data.keys.Perm cache.liveSlots :=
    (List.perm_ext_iff_of_nodup cache.data.nodupKeys inv.nodup).mpr inv.keys
  rw [perm.length_eq, liveSlots_eq, Lib.Ring.length_live]
  exact inv.size

/-- What `Set` leaves under each key. -/
theorem lookup_set {cache : MatchCache H} {key other : Bytes}
    {value result : MatchResult H}
    (found : (cache.set key value).data.lookup other = some result) :
    (other = key ∧ result = value) ∨ cache.data.lookup other = some result := by
  by_cases same : other = key
  · subst same
    left
    unfold MatchCache.set at found
    split at found
    · simpa [eq_comm] using found
    · split at found
      · simpa [eq_comm] using found
      · simpa [eq_comm] using found
  · right
    unfold MatchCache.set at found
    split at found
    · simpa [AList.lookup_insert_ne same] using found
    · split at found
      · simp only [AList.lookup_insert_ne same] at found
        by_cases erased : other = cache.ring.getD cache.head []
        · rw [erased, AList.lookup_erase] at found
          cases found
        · rwa [AList.lookup_erase_ne erased] at found
      · simpa [AList.lookup_insert_ne same] using found

/-! ## Failed registrations -/

/-- The two lookups read only the indices and the child paths. -/
theorem scanRun_congr {first : UInt8} {path : Bytes} {left right : List (Node H)}
    (paths : left.map (·.path) = right.map (·.path)) (indices : Bytes) :
    ∀ index, scanRun first path index indices left =
      scanRun first path index indices right := by
  induction indices generalizing left right with
  | nil =>
    intro index
    simp [scanRun]
  | cons byte indices ih =>
    intro index
    cases left with
    | nil =>
      have empty : right = [] := by simpa using paths.symm
      rw [empty]
    | cons child children =>
      cases right with
      | nil => simp at paths
      | cons other others =>
        simp only [List.map_cons, List.cons.injEq] at paths
        simp only [scanRun, paths.1, ih paths.2]

theorem findIdx?_paths {left right : List (Node H)} (test : Bytes → Bool)
    (paths : left.map (·.path) = right.map (·.path)) :
    left.findIdx? (fun child => test child.path) =
      right.findIdx? fun child => test child.path := by
  have mapped : ∀ nodes : List (Node H), nodes.findIdx? (fun child => test child.path) =
      (nodes.map (·.path)).findIdx? test := by
    intro nodes
    rw [List.findIdx?_map]
    rfl
  rw [mapped left, mapped right, paths]

theorem children_length_congr {left right : Node H}
    (paths : left.children.map (·.path) = right.children.map (·.path)) :
    left.children.length = right.children.length := by
  simpa using congrArg List.length paths

theorem children_nil_congr {left right : Node H}
    (paths : left.children.map (·.path) = right.children.map (·.path)) :
    left.children = [] ↔ right.children = [] := by
  rw [← List.length_eq_zero_iff, children_length_congr paths, List.length_eq_zero_iff]

section Congruence

variable {left right : Node H} (indices : left.indices = right.indices)
  (paths : left.children.map (·.path) = right.children.map (·.path))

include indices paths

theorem findStaticIndex_congr (path : Bytes) :
    findStaticIndex left path = findStaticIndex right path := by
  have length := children_length_congr paths
  have empty := children_nil_congr paths
  have scan := findIdx?_paths (· == path) paths
  unfold findStaticIndex
  rw [indices, length, scan]
  by_cases none : right.children = []
  · rw [if_pos (empty.mpr none), if_pos none]
  · rw [if_neg fun other => none (empty.mp other), if_neg none]
    cases right.indices with
    | nil => rfl
    | cons byte bytes =>
      cases path with
      | nil => rfl
      | cons first rest =>
        have runs : ∀ index, scanRun first (first :: rest) index
            ((byte :: bytes).drop index) (left.children.drop index) =
            scanRun first (first :: rest) index ((byte :: bytes).drop index)
              (right.children.drop index) := by
          intro index
          apply scanRun_congr
          rw [List.map_drop, List.map_drop, paths]
        simp only [runs]

theorem findIndexByByte_congr (byte : UInt8) :
    findIndexByByte left byte = findIndexByByte right byte := by
  have length := children_length_congr paths
  have empty := children_nil_congr paths
  have scan := findIdx?_paths (fun path => path.head? == some byte) paths
  unfold findIndexByByte
  rw [indices, length, scan]
  by_cases none : right.children = []
  · rw [if_pos (empty.mpr none), if_pos none]
  · rw [if_neg fun other => none (empty.mp other), if_neg none]

end Congruence

/-- Two nodes answer every request alike: the walk that starts at one of them
gives the same result as the walk that starts at the other. -/
structure SameMatch (left right : Node H) : Prop where
  path : left.path = right.path
  handler : left.handler = right.handler
  routeName : left.routeName = right.routeName
  walks : ∀ parts rawPath index values rest,
    (matchLoop parts rawPath index left values rest).bind resultOf =
      (matchLoop parts rawPath index right values rest).bind resultOf

theorem SameMatch.refl (node : Node H) : SameMatch node node :=
  ⟨rfl, rfl, rfl, fun _ _ _ _ _ => rfl⟩

theorem SameMatch.trans {first second third : Node H}
    (left : SameMatch first second) (right : SameMatch second third) :
    SameMatch first third where
  path := left.path.trans right.path
  handler := left.handler.trans right.handler
  routeName := left.routeName.trans right.routeName
  walks := fun parts rawPath index values rest =>
    (left.walks parts rawPath index values rest).trans
      (right.walks parts rawPath index values rest)

/-- Entering a child fills in at most its parameter name, which no match
reads. -/
theorem enterChild_sameMatch {seg : Segment} {child entered : Node H}
    (entry : enterChild seg child = some entered) : SameMatch child entered := by
  have named : ∀ name, SameMatch child { child with paramName := name } := by
    intro name
    refine ⟨rfl, rfl, rfl, ?_⟩
    intro parts rawPath index values rest
    cases rest with
    | nil => rfl
    | cons part rest => rfl
  unfold enterChild at entry
  split at entry
  · split at entry
    · cases entry
      exact named _
    · split at entry
      · cases entry
      · cases entry
        exact .refl child
  · cases entry
    exact .refl child

/-- Replacing a child by one that answers alike changes no answer. -/
theorem SameMatch.setChild {parent child branch : Node H} {index : Nat}
    (childEq : parent.children[index]? = some child)
    (same : SameMatch child branch) :
    SameMatch parent (parent.setChild index branch) := by
  have paths := setChild_paths childEq same.path.symm
  have static : ∀ path, findStaticIndex (parent.setChild index branch) path =
      findStaticIndex parent path := findStaticIndex_congr rfl paths
  have byByte : ∀ byte, findIndexByByte (parent.setChild index branch) byte =
      findIndexByByte parent byte := findIndexByByte_congr rfl paths
  have bound := (List.getElem?_eq_some_iff.mp childEq).1
  have childAt : ∀ position, (parent.setChild index branch).children[position]? =
      if index = position then some branch else parent.children[position]? := by
    intro position
    simp only [Node.setChild]
    rw [List.getElem?_set]
    by_cases here : index = position
    · subst here
      simp [bound]
    · simp [here]
  -- a lookup finds equal children, except at `index`, where they answer alike
  have found : ∀ position : Option Nat,
      (position.bind fun place => (parent.setChild index branch).children[place]?) =
          (position.bind fun place => parent.children[place]?) ∨
        ((position.bind fun place => (parent.setChild index branch).children[place]?) =
            some branch ∧
          (position.bind fun place => parent.children[place]?) = some child) := by
    intro position
    cases position with
    | none => exact Or.inl rfl
    | some place =>
      simp only [Option.bind_some, childAt]
      by_cases here : index = place
      · subst here
        exact Or.inr ⟨by simp, childEq⟩
      · exact Or.inl (by simp [here])
  refine ⟨rfl, rfl, rfl, ?_⟩
  intro parts rawPath start values rest
  cases rest with
  | nil => rfl
  | cons part rest =>
    by_cases empty : part = []
    · simp [matchLoop, empty]
    · simp only [matchLoop, if_neg empty, findStaticChild, findParamChild,
        findWildChild, findChildByByte, static, byByte]
      rcases found (findStaticIndex parent part) with equal | ⟨new, old⟩
      · rw [equal]
        cases (findStaticIndex parent part).bind fun place =>
            parent.children[place]? with
        | some next => rfl
        | none =>
          rcases found (findIndexByByte parent colon) with equal | ⟨new, old⟩
          · rw [equal]
            cases (findIndexByByte parent colon).bind fun place =>
                parent.children[place]? with
            | some next => rfl
            | none =>
              rcases found (findIndexByByte parent star) with equal | ⟨new, old⟩
              · rw [equal]
              · rw [new, old]
                -- the wildcard ends the walk at the replaced child itself
                have ending := same.walks parts rawPath start
                  (values ++ [rawPath.drop (segmentOffset parts start)]) []
                simpa [matchLoop] using ending
          · rw [new, old]
            exact same.walks _ _ _ _ _
      · rw [new, old]
        exact same.walks _ _ _ _ _

/-- A walk that fails leaves a tree that answers every request as before. -/
theorem insertRoute_failed (method : Bytes) (payload : Payload H) :
    ∀ (segs : List Segment) (current tree : Node H) (failure : GoError),
      (∀ seg ∈ segs, seg.raw ≠ []) →
      insertRoute method payload current segs = .ret tree (some failure) →
      SameMatch current tree
  | [], current, tree, failure, _, failed => by
      simp only [insertRoute, finalizeNode] at failed
      split at failed
      · simp only [Outcome.ret.injEq] at failed
        exact failed.1 ▸ .refl current
      · simp at failed
  | seg :: rest, current, tree, failure, nonempty, failed => by
      have restNonempty := List.forall_mem_of_forall_mem_cons nonempty
      simp only [insertRoute] at failed
      split at failed
      · split at failed
        · cases failed
        · rename_i index _ _ child childEq
          split at failed
          · simp only [Outcome.ret.injEq] at failed
            exact failed.1 ▸ .refl current
          · rename_i entered entryEq
            obtain ⟨branch, inner, rfl⟩ := Outcome.map_ret failed
            exact .setChild childEq ((enterChild_sameMatch entryEq).trans
              (insertRoute_failed method payload rest entered branch failure
                restNonempty inner))
      · split at failed
        · cases failed
        · -- below a new node nothing can fail
          obtain ⟨branch, inner, _⟩ := Outcome.map_ret failed
          obtain ⟨newLeaf, newIndices⟩ := newSegmentNode_leaf (H := H) seg
          have noHandler : (newSegmentNode seg : Node H).handler = none := by
            simpa [Node.entry] using newSegmentNode_entry (H := H) seg
          obtain ⟨grown, success⟩ := insertRoute_leaf method payload rest
            (newSegmentNode seg) restNonempty newLeaf newIndices noHandler
          rw [success] at inner
          cases inner

/-- What a tree answers for a path: the body of `matchTree`. -/
def treeAnswer (tree : Node H) (method path : Bytes) : Option (MatchResult H) :=
  if path = [slash] then
    tree.handler.map fun handler =>
      { handler := handler
        routePattern := [slash]
        routeMethod := method
        routeName := tree.routeName }
  else
    (matchNode tree (splitPathToParts path) path).map fun result =>
      { result with routeMethod := method }

theorem SameMatch.answer {left right : Node H} (same : SameMatch left right)
    (method path : Bytes) : treeAnswer left method path = treeAnswer right method path := by
  unfold treeAnswer matchNode
  rw [same.handler, same.routeName, same.walks]

theorem treeAnswer_empty (method path : Bytes) :
    treeAnswer ({} : Node H) method path = none := by
  unfold treeAnswer
  split
  · rfl
  · unfold matchNode
    cases splitPathToParts path with
    | nil => rfl
    | cons part rest =>
      by_cases empty : part = []
      · simp [matchLoop, empty]
      · simp [matchLoop, empty, findStaticChild, findStaticIndex, findParamChild,
          findWildChild, findChildByByte, findIndexByByte]

/-- A method without a tree answers like an empty tree. -/
theorem matchTree_eq (state : RouterState H) (method path : Bytes) :
    matchTree state method path = treeAnswer (state.treeOrNew method) method path := by
  unfold matchTree RouterState.treeOrNew
  cases state.trees.lookup method with
  | none => exact (treeAnswer_empty method path).symm
  | some tree => rfl

/-- States whose trees answer alike match alike. -/
theorem matchRoute_congr {before after : RouterState H}
    (same : ∀ method, SameMatch (before.treeOrNew method) (after.treeOrNew method))
    (method path : Bytes) :
    matchRoute after method path = matchRoute before method path := by
  have trees : ∀ other, matchTree after other path = matchTree before other path := by
    intro other
    rw [matchTree_eq, matchTree_eq, (same other).answer]
  unfold matchRoute
  simp only [trees]

theorem sameMatch_setTree {state : RouterState H} {method : Bytes} {tree : Node H}
    (same : SameMatch (state.treeOrNew method) tree) (other : Bytes) :
    SameMatch (state.treeOrNew other) ((state.setTree method tree).treeOrNew other) := by
  rw [treeOrNew_setTree]
  by_cases here : other = method
  · rw [if_pos here, here]
    exact same
  · rw [if_neg here]
    exact .refl _

/-- A failed registration changes no answer and leaves the cache alone. -/
theorem addRoute_failed {state after : RouterState H} {call : RouteCall H}
    {failure : GoError} (failed : addRoute state call = .ret after (some failure)) :
    (∀ method path, matchRoute after method path = matchRoute state method path) ∧
      after.matchCache = state.matchCache := by
  unfold addRoute at failed
  cases checkEq : checkCall state call with
  | error cause =>
    simp only [checkEq, Outcome.ret.injEq] at failed
    rw [← failed.1]
    exact ⟨fun _ _ => rfl, rfl⟩
  | ok handler =>
    simp only [checkEq] at failed
    have started : ∀ method, SameMatch (state.treeOrNew method)
        ((state.setTree call.method (state.treeOrNew call.method)).treeOrNew method) :=
      sameMatch_setTree (.refl _)
    cases validEq : validateRouteSegments call.full call.segments with
    | some cause =>
      simp only [validEq, Outcome.ret.injEq] at failed
      rw [← failed.1]
      exact ⟨matchRoute_congr started, rfl⟩
    | none =>
      simp only [validEq] at failed
      cases walkEq : insertRoute call.method (call.payload handler)
          (state.treeOrNew call.method) call.segments with
      | panic => simp [walkEq] at failed
      | ret tree cause =>
        cases cause with
        | none => simp [walkEq] at failed
        | some cause =>
          simp only [walkEq, Outcome.ret.injEq] at failed
          rw [← failed.1]
          have same := insertRoute_failed call.method (call.payload handler)
            call.segments _ tree cause (validateSegmentsFrom_raw validEq) walkEq
          refine ⟨matchRoute_congr ?_, rfl⟩
          intro method
          refine (started method).trans (sameMatch_setTree ?_ method)
          rw [treeOrNew_setTree, if_pos rfl]
          exact same

/-! ## Runs with and without the cache -/

/-- The calls on a router and its groups. -/
inductive RouterOp (H : Type) where
  | addRoute (call : RouteCall H)
  | setMethodNotAllowed (enabled : Bool)
  | freeze
  | serve (method urlPath : Bytes)

/-- What a caller sees of one call. -/
inductive Observation (H : Type) where
  | added (failure : Option GoError)
  | configured
  | answered (response : Response H)

/-- The method of a request is an HTTP token. -/
def RouterOp.tokenMethod : RouterOp H → Prop
  | .serve method _ => ∀ byte ∈ method, isHTTPTokenChar byte = true
  | _ => True

instance (op : RouterOp H) : Decidable op.tokenMethod :=
  match op with
  | .serve method _ =>
    inferInstanceAs (Decidable (∀ byte ∈ method, isHTTPTokenChar byte = true))
  | .addRoute _ | .setMethodNotAllowed _ | .freeze => .isTrue trivial

/-- `ServeHTTP` of a router that always calls `matchRoute`. -/
def serveUncached (state : RouterState H) (method urlPath : Bytes) :
    RouterState H × Response H :=
  let path := fastNormalizePath urlPath
  match matchRoute state method path with
  | none => (state, unmatchedResponse state path)
  | some result => (state, attachRouteContextAndServe method result)

/-- One call; a panicking registration ends the run. -/
def routerStep (serve : RouterState H → Bytes → Bytes → RouterState H × Response H)
    (state : RouterState H) : RouterOp H → Option (RouterState H × Observation H)
  | .addRoute call =>
    match addRoute state call with
    | .panic => none
    | .ret after failure => some (after, .added failure)
  | .setMethodNotAllowed enabled =>
    some (setMethodNotAllowed state enabled, .configured)
  | .freeze => some (freeze state, .configured)
  | .serve method urlPath =>
    some ((serve state method urlPath).1, .answered (serve state method urlPath).2)

/-- The router of the source. -/
def cachedRouter (H : Type) : Machine (RouterState H) (RouterOp H) (Observation H) where
  step := routerStep serveHTTP

/-- The router without its cache. -/
def uncachedRouter (H : Type) :
    Machine (RouterState H) (RouterOp H) (Observation H) where
  step := routerStep serveUncached

/-- A state with another cache. -/
def RouterState.withCache (state : RouterState H) (cache : MatchCache H) :
    RouterState H :=
  { state with matchCache := cache }

theorem recordRoute_withCache (state : RouterState H) (cache : MatchCache H)
    (method full : Bytes) (info : RouteMeta) :
    recordRoute (state.withCache cache) method full info =
      (recordRoute state method full info).withCache cache.clear := by
  unfold recordRoute
  split <;> rfl

/-- A registration reads nothing of the cache: it clears it on success and
keeps it on failure. -/
theorem addRoute_withCache (state : RouterState H) (cache : MatchCache H)
    (call : RouteCall H) :
    addRoute (state.withCache cache) call =
      match addRoute state call with
      | .panic => .panic
      | .ret after none => .ret (after.withCache cache.clear) none
      | .ret after (some failure) => .ret (after.withCache cache) (some failure) := by
  have sameCheck : checkCall (state.withCache cache) call = checkCall state call := rfl
  have sameTree : (state.withCache cache).treeOrNew call.method =
      state.treeOrNew call.method := rfl
  unfold addRoute
  rw [sameCheck, sameTree]
  cases checkCall state call with
  | error failure => rfl
  | ok handler =>
    dsimp only
    cases validateRouteSegments call.full call.segments with
    | some cause => rfl
    | none =>
      dsimp only
      cases insertRoute call.method (call.payload handler)
          (state.treeOrNew call.method) call.segments with
      | panic => rfl
      | ret tree cause =>
        cases cause with
        | some cause => rfl
        | none =>
          simp only [Outcome.ret.injEq, and_true]
          exact recordRoute_withCache
            ((state.setTree call.method (state.treeOrNew call.method)).setTree
              call.method tree) cache call.method call.full call.info

/-- A token holds no colon, so the key of a request determines it. -/
theorem cacheKey_injective {method other path otherPath : Bytes}
    (token : ∀ byte ∈ method, isHTTPTokenChar byte = true)
    (otherToken : ∀ byte ∈ other, isHTTPTokenChar byte = true)
    (same : cacheKey method path = cacheKey other otherPath) :
    method = other ∧ path = otherPath := by
  have separator : isHTTPTokenChar colon = false := by decide
  have free : ∀ text : Bytes, (∀ byte ∈ text, isHTTPTokenChar byte = true) →
      colon ∉ text := by
    intro text tokens member
    rw [tokens colon member] at separator
    cases separator
  unfold cacheKey at same
  induction method generalizing other with
  | nil =>
    cases other with
    | nil => simpa using same
    | cons byte other =>
      simp only [List.nil_append, List.cons_append, List.cons.injEq] at same
      exact absurd (same.1 ▸ List.mem_cons_self) (free _ otherToken)
  | cons byte method ih =>
    cases other with
    | nil =>
      simp only [List.nil_append, List.cons_append, List.cons.injEq] at same
      exact absurd (same.1 ▸ List.mem_cons_self) (free _ token)
    | cons otherByte other =>
      simp only [List.cons_append, List.cons.injEq] at same
      obtain ⟨methodEq, pathEq⟩ := ih
        (List.forall_mem_of_forall_mem_cons token)
        (List.forall_mem_of_forall_mem_cons otherToken)
        same.2
      exact ⟨by rw [same.1, methodEq], pathEq⟩

/-- The cached router mirrors the uncached one: they differ in the cache only,
and it remembers only what the matcher says. -/
structure Mirrors (cached uncached : RouterState H) : Prop where
  core : cached = uncached.withCache cached.matchCache
  valid : ∀ key result, cached.matchCache.data.lookup key = some result →
    ∃ method path, (∀ byte ∈ method, isHTTPTokenChar byte = true) ∧
      key = cacheKey method path ∧ matchRoute uncached method path = some result

theorem cacheInv_newRouterState {capacity : Nat} (positive : 0 < capacity) :
    CacheInv capacity (newRouterState H capacity).matchCache := by
  have capacityPositive : (0 : Int) < capacity := by omega
  simp only [newRouterState, if_pos capacityPositive]
  exact cacheInv_new positive

theorem mirrors_new (capacity : Int) :
    Mirrors (newRouterState H capacity) (newRouterState H capacity) where
  core := rfl
  valid := by
    intro key result found
    simp [newRouterState, newMatchCache] at found

/-- A hit answers what the matcher would. -/
theorem Mirrors.hit {cached uncached : RouterState H}
    (mirrors : Mirrors cached uncached) {method path : Bytes}
    {result : MatchResult H} (token : ∀ byte ∈ method, isHTTPTokenChar byte = true)
    (found : cached.matchCache.get (cacheKey method path) = some result) :
    matchRoute uncached method path = some result := by
  obtain ⟨other, otherPath, otherToken, keyEq, matched⟩ := mirrors.valid _ _ found
  obtain ⟨rfl, rfl⟩ := cacheKey_injective token otherToken keyEq
  exact matched

/-- Requests are answered alike and keep the mirror. -/
theorem Mirrors.serve {cached uncached : RouterState H}
    (mirrors : Mirrors cached uncached) {method : Bytes} (urlPath : Bytes)
    (token : ∀ byte ∈ method, isHTTPTokenChar byte = true) :
    (serveHTTP cached method urlPath).2 = (serveUncached uncached method urlPath).2 ∧
      Mirrors (serveHTTP cached method urlPath).1
        (serveUncached uncached method urlPath).1 := by
  have sameMatch : ∀ path, matchRoute cached method path =
      matchRoute uncached method path := by
    intro path
    rw [mirrors.core]
    rfl
  have sameMiss : ∀ path, unmatchedResponse cached path =
      unmatchedResponse uncached path := by
    intro path
    rw [mirrors.core]
    rfl
  unfold serveHTTP serveUncached
  dsimp only
  cases foundEq : cached.matchCache.get (cacheKey method (fastNormalizePath urlPath)) with
  | some result =>
    rw [mirrors.hit token foundEq]
    exact ⟨rfl, mirrors⟩
  | none =>
    dsimp only
    rw [sameMatch]
    cases matchEq : matchRoute uncached method (fastNormalizePath urlPath) with
    | none => exact ⟨sameMiss _, mirrors⟩
    | some result =>
      refine ⟨rfl, ?_, ?_⟩
      · conv_lhs => rw [mirrors.core]
        rfl
      · intro key stored found
        rcases lookup_set found with ⟨rfl, rfl⟩ | old
        · exact ⟨method, _, token, rfl, matchEq⟩
        · exact mirrors.valid key stored old

/-- Registrations end alike and keep the mirror: a success clears the cache, a
failure changes no answer. -/
theorem Mirrors.addRoute {cached uncached : RouterState H}
    (mirrors : Mirrors cached uncached) (call : RouteCall H) :
    Machine.StepsTogether (cachedRouter H) (uncachedRouter H) (Mirrors)
      cached uncached (.addRoute call) := by
  have swapped := addRoute_withCache uncached cached.matchCache call
  rw [← mirrors.core] at swapped
  unfold Machine.StepsTogether
  simp only [cachedRouter, uncachedRouter, routerStep]
  cases callEq : Router.addRoute uncached call with
  | panic =>
    simp only [callEq] at swapped
    rw [swapped]
    exact Or.inl ⟨rfl, rfl⟩
  | ret after failure =>
    right
    cases failure with
    | none =>
      simp only [callEq] at swapped
      rw [swapped]
      refine ⟨_, after, _, rfl, rfl, rfl, ?_⟩
      intro key result found
      simp [MatchCache.clear, RouterState.withCache] at found
    | some failure =>
      simp only [callEq] at swapped
      rw [swapped]
      obtain ⟨sameMatch, _⟩ := addRoute_failed callEq
      refine ⟨_, after, _, rfl, rfl, rfl, ?_⟩
      intro key result found
      obtain ⟨method, path, methodToken, keyEq, matched⟩ :=
        mirrors.valid key result found
      exact ⟨method, path, methodToken, keyEq,
        (sameMatch method path).trans matched⟩

/-- The two routers step together. -/
theorem Mirrors.step {cached uncached : RouterState H}
    (mirrors : Mirrors cached uncached) {op : RouterOp H}
    (token : op.tokenMethod) :
    Machine.StepsTogether (cachedRouter H) (uncachedRouter H) (Mirrors)
      cached uncached op := by
  cases op with
  | addRoute call => exact mirrors.addRoute call
  | setMethodNotAllowed enabled =>
    right
    have cacheEq : (setMethodNotAllowed cached enabled).matchCache =
        cached.matchCache := by
      unfold setMethodNotAllowed
      split <;> rfl
    have coreEq : setMethodNotAllowed cached enabled =
        (setMethodNotAllowed uncached enabled).withCache cached.matchCache := by
      rw [mirrors.core]
      unfold setMethodNotAllowed
      split
      · rename_i frozen
        rw [if_pos (show uncached.frozen = true from frozen)]
        rfl
      · rename_i running
        rw [if_neg (show ¬ uncached.frozen = true from running)]
        rfl
    have matchEq : ∀ method path,
        matchRoute (setMethodNotAllowed uncached enabled) method path =
          matchRoute uncached method path := by
      intro method path
      unfold setMethodNotAllowed
      split <;> rfl
    refine ⟨_, _, .configured, rfl, rfl, by rw [cacheEq]; exact coreEq, ?_⟩
    simp only [cacheEq, matchEq]
    exact mirrors.valid
  | freeze =>
    right
    refine ⟨_, _, .configured, rfl, rfl, ?_, mirrors.valid⟩
    conv_lhs => rw [mirrors.core]
    rfl
  | serve method urlPath =>
    right
    obtain ⟨sameAnswer, again⟩ := mirrors.serve urlPath token
    exact ⟨_, _, _, rfl, by simp only [uncachedRouter, routerStep, sameAnswer], again⟩

/-- The cached router alone: its ring and map stay in step. -/
theorem cachedRouter_inv {capacity : Nat} {state next : RouterState H}
    {op : RouterOp H} {seen : Observation H}
    (inv : CacheInv capacity state.matchCache)
    (stepped : (cachedRouter H).step state op = some (next, seen)) :
    CacheInv capacity next.matchCache := by
  cases op with
  | addRoute call =>
    have swapped := addRoute_withCache state state.matchCache call
    change addRoute state call = _ at swapped
    simp only [cachedRouter, routerStep] at stepped
    cases callEq : addRoute state call with
    | panic => simp [callEq] at stepped
    | ret after failure =>
      simp only [callEq, Option.some.injEq, Prod.mk.injEq] at stepped
      rw [← stepped.1]
      cases failure with
      | none =>
        simp only [callEq, Outcome.ret.injEq, and_true] at swapped
        rw [swapped]
        exact inv.clear
      | some failure =>
        rw [(addRoute_failed callEq).2]
        exact inv
  | setMethodNotAllowed enabled =>
    simp only [cachedRouter, routerStep, Option.some.injEq, Prod.mk.injEq] at stepped
    rw [← stepped.1]
    unfold setMethodNotAllowed
    split
    · exact inv
    · exact inv
  | freeze =>
    simp only [cachedRouter, routerStep, Option.some.injEq, Prod.mk.injEq] at stepped
    rw [← stepped.1]
    exact inv
  | serve method urlPath =>
    simp only [cachedRouter, routerStep, Option.some.injEq, Prod.mk.injEq] at stepped
    rw [← stepped.1]
    unfold serveHTTP
    dsimp only
    split
    · exact inv
    · split
      · exact inv
      · exact inv.set _ _

/-- Cache transparency: for every positive capacity and every run whose request
methods are HTTP tokens, the cached and the uncached router show the same
observations; and after every prefix of the run the map of the cache has at most
`capacity` entries and its keys are the live ring slots. -/
theorem cache_transparent {capacity : Nat} (positive : 0 < capacity)
    (ops : List (RouterOp H)) (tokens : ∀ op ∈ ops, op.tokenMethod) :
    (cachedRouter H).trace (newRouterState H capacity) ops =
        (uncachedRouter H).trace (newRouterState H capacity) ops ∧
      ∀ done, done <+: ops → ∀ state,
        (cachedRouter H).run (newRouterState H capacity) done = some state →
        state.matchCache.data.keys.length ≤ capacity ∧
          state.matchCache.liveSlots.length = state.matchCache.size ∧
          ∀ key, key ∈ state.matchCache.data.keys ↔
            key ∈ state.matchCache.liveSlots := by
  constructor
  · exact Machine.trace_eq_of_simulation
      (fun _ _ _ token mirrors => mirrors.step token) (mirrors_new capacity) tokens
  · intro done _ state reached
    have keeps : ∀ (before : RouterState H) (op : RouterOp H) (after : RouterState H)
        (seen : Observation H), True → CacheInv capacity before.matchCache →
        (cachedRouter H).step before op = some (after, seen) →
        CacheInv capacity after.matchCache :=
      fun _ _ _ _ _ inv stepped => cachedRouter_inv inv stepped
    have inv : CacheInv capacity state.matchCache :=
      Machine.run_invariant keeps (cacheInv_newRouterState positive)
        (fun _ _ => trivial) reached
    exact ⟨inv.bounded, by rw [liveSlots_eq, Lib.Ring.length_live], inv.keys⟩

/-- One slot, one pattern and four requests: a miss, a hit, an eviction and a
late registration. -/
def busyOps : List (RouterOp Unit) :=
  [.addRoute { method := ascii "GET", path := ascii "/users/:id", handler := some () },
    .serve (ascii "GET") (ascii "/users/7"), .serve (ascii "GET") (ascii "/users/7"),
    .serve (ascii "GET") (ascii "/users/8"),
    .addRoute { method := ascii "GET", path := ascii "/users/8", handler := some () },
    .serve (ascii "GET") (ascii "/users/8")]

theorem busyOps_tokens : ∀ op ∈ busyOps, op.tokenMethod := by decide +kernel

/-- The run above shows the same answers with and without its cache. -/
theorem cache_transparent_busy :
    (cachedRouter Unit).trace (newRouterState Unit (1 : Nat)) busyOps =
      (uncachedRouter Unit).trace (newRouterState Unit (1 : Nat)) busyOps :=
  (cache_transparent Nat.one_pos busyOps busyOps_tokens).1

end Plumego.Router
