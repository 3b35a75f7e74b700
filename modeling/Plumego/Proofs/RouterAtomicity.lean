/-
Module: Plumego.Proofs.RouterAtomicity
Purpose: A failed registration leaves no trace. In every state that runs of
  `AddRoute` reach, the walk of a call that fails has only visited nodes that
  were there before, so matching, the `Allow` lists, the snapshots and all later
  registrations go on as if the call had not been made.
Trusted boundary: none
Main exports: Keyed, AllKeyed, insertRoute_keyed, Alike, Alike.addRoute, outcomes,
  addRoute_atomic
-/
import Plumego.Proofs.RouterCache
import Plumego.Proofs.RouterDispatch

namespace Plumego.Router

open Go

variable {H : Type}

/-! ## Reserved children keep their names

From `0x80` on the index text drifts away from the children, so a node is not
aligned in general. Its ASCII bytes come first, though, and they stay in step
with the first children; the reserved bytes are among them. -/

/-- The ASCII part of the index text matches the first children, and every child
with a reserved first byte has a parameter name. -/
structure Keyed (node : Node H) : Prop where
  low : ∃ narrow wide front back, node.indices = narrow ++ wide ∧
    node.children = front ++ back ∧ HeadsAligned narrow front ∧
    (∀ byte ∈ narrow, byte < 0x80) ∧ ∀ byte ∈ wide, ¬ byte < 0x80
  named : ∀ child ∈ node.children,
    child.path.head? = some colon ∨ child.path.head? = some star →
      child.paramName ≠ []

/-- Every node of the trie is keyed. -/
def AllKeyed (root : Node H) : Prop :=
  ∀ node, root.Within node → Keyed node

theorem allKeyed_iff {root : Node H} :
    AllKeyed root ↔ Keyed root ∧ ∀ branch ∈ root.children, AllKeyed branch :=
  Node.forall_within_iff

/-- A leaf is keyed. -/
theorem allKeyed_leaf {node : Node H} (noChildren : node.children = [])
    (noIndices : node.indices = []) : AllKeyed node := by
  refine allKeyed_iff.mpr ⟨⟨⟨[], [], [], [], ?_, ?_, .nil, ?_, ?_⟩, ?_⟩, ?_⟩
  · exact noIndices
  · exact noChildren
  · simp
  · simp
  · simp [noChildren]
  · simp [noChildren]

/-- A reserved lookup ends at a child with that first byte. -/
theorem Keyed.head_of_find {node child : Node H} {byte : UInt8} {index : Nat}
    (keyed : Keyed node) (narrowByte : byte < 0x80)
    (found : findIndexByByte node byte = some index)
    (childEq : node.children[index]? = some child) :
    child.path.head? = some byte := by
  obtain ⟨narrow, wide, front, back, indicesEq, childrenEq, heads, _, wideBytes⟩ :=
    keyed.low
  unfold findIndexByByte at found
  split at found
  · cases found
  · split at found
    · obtain ⟨position, hit, bounded⟩ := Option.bind_eq_some_iff.mp found
      split at bounded
      · cases bounded
        obtain ⟨bound, isByte, _⟩ := List.findIdx?_eq_some_iff_getElem.mp hit
        have isByte : node.indices[index] = byte := by simpa using isByte
        -- the byte is ASCII, so the hit is in the aligned part
        have early : index < narrow.length := by
          by_contra late
          have member : node.indices[index] ∈ wide := by
            have whole : node.indices[index]? = (narrow ++ wide)[index]? := by
              rw [indicesEq]
            rw [List.getElem?_append_right (Nat.le_of_not_lt late),
              List.getElem?_eq_getElem bound] at whole
            exact List.mem_of_getElem? whole.symm
          exact wideBytes _ member (isByte ▸ narrowByte)
        have lengths := heads.length_eq
        have sameByte : narrow[index] = byte := by
          have whole : node.indices[index]? = (narrow ++ wide)[index]? := by
            rw [indicesEq]
          rw [List.getElem?_append_left early, List.getElem?_eq_getElem early,
            List.getElem?_eq_getElem bound, isByte] at whole
          exact (Option.some.inj whole).symm
        have inFront : index < front.length := lengths ▸ early
        have sameChild : front[index] = child := by
          rw [childrenEq, List.getElem?_append_left inFront,
            List.getElem?_eq_getElem inFront] at childEq
          exact Option.some.inj childEq
        rw [← sameByte, ← sameChild]
        exact (List.forall₂_iff_get.mp heads).2 index early inFront
      · cases bounded
    · obtain ⟨bound, isByte, _⟩ := List.findIdx?_eq_some_iff_getElem.mp found
      rw [List.getElem?_eq_getElem bound, Option.some.injEq] at childEq
      rw [← childEq]
      simpa using isByte

/-- Entering an existing child of a keyed node changes nothing: its name is
already filled in. -/
theorem Keyed.enterChild_eq {current child entered : Node H} {seg : Segment}
    {index : Nat} (keyed : Keyed current)
    (found : findSegmentIndex current seg = some index)
    (childEq : current.children[index]? = some child)
    (entry : enterChild seg child = some entered) : entered = child := by
  have reserved : seg.isParam = true ∨ seg.isWild = true → child.paramName ≠ [] := by
    intro special
    apply keyed.named child (List.mem_of_getElem? childEq)
    unfold findSegmentIndex at found
    split at found
    · exact .inl (keyed.head_of_find (by decide) found childEq)
    · split at found
      · exact .inr (keyed.head_of_find (by decide) found childEq)
      · rename_i notParam notWild
        exact absurd special (by simp [notParam, notWild])
  unfold enterChild at entry
  split at entry
  · rename_i special
    rw [if_neg (reserved special)] at entry
    split at entry
    · cases entry
    · exact (Option.some.inj entry).symm
  · exact (Option.some.inj entry).symm

/-! ## The walk keeps the tries keyed -/

theorem stringOfByte_wide {byte : UInt8} (wide : ¬ byte < 0x80) :
    ∀ other ∈ stringOfByte byte, ¬ other < 0x80 := by
  intro other member
  rw [stringOfByte, if_neg wide, List.mem_cons, List.mem_singleton] at member
  rw [UInt8.not_lt, UInt8.le_iff_toNat_le]
  rcases member with rfl | rfl
  · have high := Nat.left_le_or (n := (0xC0 : UInt8).toNat) (m := (byte >>> 6).toNat)
    rw [UInt8.toNat_or]
    exact Nat.le_trans (by decide) high
  · rw [UInt8.toNat_or]
    exact Nat.left_le_or

/-- Where a byte is inserted into ASCII text followed by wide bytes. -/
theorem insertPosition_append {narrow wide : Bytes} {first : UInt8}
    (narrowBytes : ∀ byte ∈ narrow, byte < 0x80)
    (wideBytes : ∀ byte ∈ wide, ¬ byte < 0x80) :
    insertPosition (narrow ++ wide) first =
      if first < 0x80 then insertPosition narrow first
      else narrow.length + insertPosition wide first := by
  unfold insertPosition
  split
  case isTrue ascii =>
      have stops : wide.takeWhile (· ≤ first) = [] := by
        cases wide with
        | nil => rfl
        | cons byte rest =>
          have above := wideBytes byte List.mem_cons_self
          have beyond : ¬ byte ≤ first := fun below =>
            above (UInt8.lt_of_le_of_lt below ascii)
          simp [beyond]
      rw [List.takeWhile_append, stops, List.append_nil]
      split
      · rename_i whole
        rw [whole]
      · rfl
  case isFalse high =>
      have passes : narrow.takeWhile (· ≤ first) = narrow := by
        rw [List.takeWhile_eq_self_iff]
        intro byte member
        have below := narrowBytes byte member
        simp only [decide_eq_true_eq]
        exact UInt8.le_of_lt (UInt8.lt_of_lt_of_le below (UInt8.not_lt.mp high))
      rw [List.takeWhile_append, passes, if_pos rfl, List.length_append]

/-- Inserting a child keeps its parent keyed, wherever the loop puts it. -/
theorem Keyed.grown {parent child : Node H} {first : UInt8} {rest : Bytes}
    (keyed : Keyed parent) (pathEq : child.path = first :: rest)
    (fits : insertPosition parent.indices first ≤ parent.children.length)
    (childNamed : child.path.head? = some colon ∨ child.path.head? = some star →
      child.paramName ≠ []) :
    Keyed (grownParent parent child first) := by
  obtain ⟨narrow, wide, front, back, indicesEq, childrenEq, heads, narrowBytes,
    wideBytes⟩ := keyed.low
  have position := @insertPosition_append narrow wide first narrowBytes wideBytes
  rw [← indicesEq] at position
  have lengths := heads.length_eq
  constructor
  · by_cases ascii : first < 0x80
    · rw [if_pos ascii] at position
      have bound := insertPosition_le narrow first
      refine ⟨narrow.take (insertPosition narrow first) ++
          first :: narrow.drop (insertPosition narrow first), wide,
        front.take (insertPosition narrow first) ++
          child :: front.drop (insertPosition narrow first), back, ?_, ?_, ?_, ?_,
        wideBytes⟩
      · simp only [grownParent, position, stringOfByte, if_pos ascii]
        simp only [indicesEq, List.take_append_of_le_length bound,
          List.drop_append_of_le_length bound, List.append_assoc, List.cons_append,
          List.nil_append]
      · have frontBound : insertPosition narrow first ≤ front.length := lengths ▸ bound
        simp only [grownParent, position, childrenEq,
          List.take_append_of_le_length frontBound,
          List.drop_append_of_le_length frontBound, List.append_assoc, List.cons_append]
      · apply List.rel_append
        · exact List.forall₂_take _ heads
        · exact .cons (by simp [pathEq]) (List.forall₂_drop _ heads)
      · intro byte member
        rcases List.mem_append.mp member with early | late
        · exact narrowBytes byte (List.mem_of_mem_take early)
        · rcases List.mem_cons.mp late with rfl | dropped
          · exact ascii
          · exact narrowBytes byte (List.mem_of_mem_drop dropped)
    · rw [if_neg ascii] at position
      refine ⟨narrow, wide.take (insertPosition wide first) ++ stringOfByte first ++
          wide.drop (insertPosition wide first), front,
        back.take (insertPosition wide first) ++
          child :: back.drop (insertPosition wide first), ?_, ?_, heads, narrowBytes, ?_⟩
      · simp only [grownParent, position]
        simp only [indicesEq, List.take_length_add_append,
          List.drop_length_add_append, List.append_assoc]
      · simp only [grownParent, position, childrenEq, lengths,
          List.take_length_add_append, List.drop_length_add_append, List.append_assoc]
      · intro byte member
        rcases List.mem_append.mp member with early | dropped
        · rcases List.mem_append.mp early with taken | new
          · exact wideBytes byte (List.mem_of_mem_take taken)
          · exact stringOfByte_wide ascii byte new
        · exact wideBytes byte (List.mem_of_mem_drop dropped)
  · intro other member
    simp only [grownParent, List.mem_append, List.mem_cons] at member
    rcases member with early | rfl | late
    · exact keyed.named other (List.mem_of_mem_take early)
    · exact childNamed
    · exact keyed.named other (List.mem_of_mem_drop late)

/-- Replacing a child by one with the same path and name keeps its parent
keyed. -/
theorem Keyed.setChild {parent old new : Node H} {index : Nat} (keyed : Keyed parent)
    (oldEq : parent.children[index]? = some old) (samePath : new.path = old.path)
    (sameName : new.paramName = old.paramName) : Keyed (parent.setChild index new) := by
  obtain ⟨narrow, wide, front, back, indicesEq, childrenEq, heads, narrowBytes,
    wideBytes⟩ := keyed.low
  constructor
  · have paths := setChild_paths oldEq samePath
    have cut : (parent.setChild index new).children =
        (parent.setChild index new).children.take front.length ++
          (parent.setChild index new).children.drop front.length :=
      (List.take_append_drop _ _).symm
    refine ⟨narrow, wide, _, _, indicesEq, cut, ?_, narrowBytes, wideBytes⟩
    -- the paths of the first children are the old ones
    have frontPaths : ((parent.setChild index new).children.take front.length).map
        (·.path) = front.map (·.path) := by
      rw [List.map_take, paths, childrenEq, List.map_append,
        List.take_append_of_le_length (by simp), List.take_of_length_le (by simp)]
    have mapped : List.Forall₂ (fun byte path => path.head? = some byte)
        narrow (front.map (·.path)) := List.forall₂_map_right_iff.mpr heads
    rw [← frontPaths] at mapped
    exact List.forall₂_map_right_iff.mp mapped
  · intro child member
    rcases List.mem_or_eq_of_mem_set member with other | rfl
    · exact keyed.named child other
    · rw [samePath, sameName]
      exact keyed.named old (List.mem_of_getElem? oldEq)

theorem AllKeyed.setChild {parent old new : Node H} {index : Nat}
    (keyed : Keyed parent) (below : ∀ branch ∈ parent.children, AllKeyed branch)
    (oldEq : parent.children[index]? = some old) (samePath : new.path = old.path)
    (sameName : new.paramName = old.paramName) (newKeyed : AllKeyed new) :
    AllKeyed (parent.setChild index new) := by
  refine allKeyed_iff.mpr ⟨keyed.setChild oldEq samePath sameName, ?_⟩
  intro branch member
  rcases List.mem_or_eq_of_mem_set member with old | rfl
  · exact below branch old
  · exact newKeyed

/-- A new node of a valid segment has a name if its path is reserved. -/
theorem newSegmentNode_named {seg : Segment} {rest : List Segment}
    (valid : SegmentValid seg rest) :
    (newSegmentNode seg : Node H).path.head? = some colon ∨
        (newSegmentNode seg : Node H).path.head? = some star →
      (newSegmentNode seg : Node H).paramName ≠ [] := by
  intro reserved
  rcases valid.cases with ⟨param, _, _, named⟩ | ⟨notParam, wild, _, named, _⟩ |
    ⟨notParam, notWild, _, notColon, notStar⟩
  · simpa [newSegmentNode, param] using named
  · simpa [newSegmentNode, notParam, wild] using named
  · simp [newSegmentNode, notParam, notWild, notColon, notStar] at reserved

/-- What the walk does to a keyed trie: it stays keyed, its root keeps path and
name, and a walk that fails gives the trie back as it was. -/
structure WalkKept (current tree : Node H) (failure : Option GoError) : Prop where
  keyed : AllKeyed tree
  path : tree.path = current.path
  paramName : tree.paramName = current.paramName
  failed : failure ≠ none → tree = current

theorem insertRoute_keyed (method : Bytes) (payload : Payload H) :
    ∀ (segs : List Segment) (current tree : Node H) (failure : Option GoError),
      SegmentsValid segs → AllKeyed current →
      insertRoute method payload current segs = .ret tree failure →
      WalkKept current tree failure
  | [], current, tree, failure, _, keyed, walk => by
      simp only [insertRoute, finalizeNode] at walk
      split at walk
      · simp only [Outcome.ret.injEq] at walk
        obtain ⟨rfl, rfl⟩ := walk
        exact ⟨keyed, rfl, rfl, fun _ => rfl⟩
      · simp only [Outcome.ret.injEq] at walk
        obtain ⟨rfl, rfl⟩ := walk
        refine ⟨?_, rfl, rfl, fun failed => absurd rfl failed⟩
        obtain ⟨rootKeyed, below⟩ := allKeyed_iff.mp keyed
        exact allKeyed_iff.mpr ⟨⟨rootKeyed.low, rootKeyed.named⟩, below⟩
  | seg :: rest, current, tree, failure, ⟨valid, restValid⟩, keyed, walk => by
      obtain ⟨rootKeyed, below⟩ := allKeyed_iff.mp keyed
      simp only [insertRoute] at walk
      cases foundEq : findSegmentIndex current seg with
      | some index =>
        simp only [foundEq] at walk
        cases childEq : current.children[index]? with
        | none => simp [childEq] at walk
        | some child =>
          simp only [childEq] at walk
          cases entryEq : enterChild seg child with
          | none =>
            simp only [entryEq, Outcome.ret.injEq] at walk
            obtain ⟨rfl, rfl⟩ := walk
            exact ⟨keyed, rfl, rfl, fun _ => rfl⟩
          | some entered =>
            simp only [entryEq] at walk
            obtain rfl := rootKeyed.enterChild_eq foundEq childEq entryEq
            obtain ⟨branch, inner, rfl⟩ := Outcome.map_ret walk
            have kept := insertRoute_keyed method payload rest entered branch
              failure restValid (below _ (List.mem_of_getElem? childEq)) inner
            refine ⟨AllKeyed.setChild rootKeyed below childEq kept.path
              kept.paramName kept.keyed, rfl, rfl, ?_⟩
            intro failed
            rw [kept.failed failed]
            exact setChild_self childEq
      | none =>
        simp only [foundEq] at walk
        cases insertEq : insertChild current (newSegmentNode seg) with
        | none => simp [insertEq] at walk
        | some inserted =>
          obtain ⟨grown, index⟩ := inserted
          simp only [insertEq] at walk
          obtain ⟨branch, inner, rfl⟩ := Outcome.map_ret walk
          obtain ⟨first, tail, newPath, rfl, fits, rfl⟩ := insertChild_some insertEq
          obtain ⟨newLeaf, newIndices⟩ := newSegmentNode_leaf (H := H) seg
          have noHandler : (newSegmentNode seg : Node H).handler = none := by
            simpa [Node.entry] using newSegmentNode_entry (H := H) seg
          obtain ⟨fresh, success⟩ := insertRoute_leaf method payload rest
            (newSegmentNode seg) (segmentsValid_raw restValid) newLeaf newIndices
            noHandler
          -- below a new node nothing fails
          have done : failure = none := by
            rw [success, Outcome.ret.injEq] at inner
            exact inner.2.symm
          have kept := insertRoute_keyed method payload rest (newSegmentNode seg)
            branch failure restValid (allKeyed_leaf newLeaf newIndices) inner
          have grownKeyed : Keyed (grownParent current (newSegmentNode seg) first) :=
            rootKeyed.grown newPath fits (newSegmentNode_named valid)
          have placed : (grownParent current (newSegmentNode seg) first).children[
              insertPosition current.indices first]? = some (newSegmentNode seg) := by
            simp only [grownParent]
            rw [List.getElem?_append_right (by rw [List.length_take]; omega)]
            simp [Nat.min_eq_left fits]
          refine ⟨AllKeyed.setChild grownKeyed ?_ placed kept.path kept.paramName
            kept.keyed, rfl, rfl, fun failed => absurd done failed⟩
          intro other member
          simp only [grownParent, List.mem_append, List.mem_cons] at member
          rcases member with early | rfl | late
          · exact below other (List.mem_of_mem_take early)
          · exact allKeyed_leaf newLeaf newIndices
          · exact below other (List.mem_of_mem_drop late)

/-! ## Alike states -/

/-- Every tree of the state is keyed. -/
def StateKeyed (state : RouterState H) : Prop :=
  ∀ method, AllKeyed (state.treeOrNew method)

/-- Two states that differ at most in whether an empty tree is stored. -/
structure Alike (left right : RouterState H) : Prop where
  trees : ∀ method, left.treeOrNew method = right.treeOrNew method
  routes : left.routes = right.routes
  matchCache : left.matchCache = right.matchCache
  namedRoutes : left.namedRoutes = right.namedRoutes
  methodNotAllowed : left.methodNotAllowed = right.methodNotAllowed
  frozen : left.frozen = right.frozen

theorem Alike.refl (state : RouterState H) : Alike state state :=
  ⟨fun _ => rfl, rfl, rfl, rfl, rfl, rfl⟩

/-- Storing the tree that a method has anyway changes nothing. -/
theorem alike_setTree_self (state : RouterState H) (method : Bytes) :
    Alike (state.setTree method (state.treeOrNew method)) state := by
  refine ⟨?_, rfl, rfl, rfl, rfl, rfl⟩
  intro other
  rw [treeOrNew_setTree]
  split
  case isTrue here => rw [here]
  case isFalse elsewhere => rfl

theorem Alike.setTree {left right : RouterState H} (alike : Alike left right)
    (method : Bytes) (tree : Node H) :
    Alike (left.setTree method tree) (right.setTree method tree) := by
  refine ⟨?_, alike.routes, alike.matchCache, alike.namedRoutes,
    alike.methodNotAllowed, alike.frozen⟩
  intro other
  rw [treeOrNew_setTree, treeOrNew_setTree, alike.trees]

theorem recordRoute_treeOrNew (state : RouterState H) (method full other : Bytes)
    (info : RouteMeta) :
    (recordRoute state method full info).treeOrNew other = state.treeOrNew other := by
  unfold RouterState.treeOrNew
  rw [recordRoute_trees]

theorem Alike.recordRoute {left right : RouterState H} (alike : Alike left right)
    (method full : Bytes) (info : RouteMeta) :
    Alike (recordRoute left method full info) (recordRoute right method full info) := by
  obtain ⟨trees, routes, matchCache, namedRoutes, methodNotAllowed, frozen⟩ := alike
  refine ⟨?_, ?_, ?_, ?_, ?_, ?_⟩
  · intro other
    rw [recordRoute_treeOrNew, recordRoute_treeOrNew, trees]
  all_goals
    unfold Router.recordRoute registerNamedRoute
    split
    · simp only [routes, matchCache, namedRoutes, methodNotAllowed, frozen]
    · simp only [routes, matchCache, namedRoutes, methodNotAllowed, frozen]

theorem Alike.checkCall {left right : RouterState H} (alike : Alike left right)
    (call : RouteCall H) : checkCall left call = checkCall right call := by
  unfold Router.checkCall validateRouteMeta
  rw [alike.frozen, alike.namedRoutes]

/-- Two outcomes of a call that tell the caller the same and leave alike
states. -/
inductive AlikeOutcome : Outcome (RouterState H) → Outcome (RouterState H) → Prop where
  | panic : AlikeOutcome .panic .panic
  | ret {left right : RouterState H} (failure : Option GoError)
      (alike : Alike left right) : AlikeOutcome (.ret left failure) (.ret right failure)

/-- Alike states take every call alike. -/
theorem Alike.addRoute {left right : RouterState H} (alike : Alike left right)
    (call : RouteCall H) : AlikeOutcome (addRoute left call) (addRoute right call) := by
  unfold Router.addRoute
  rw [alike.checkCall call]
  cases Router.checkCall right call with
  | error failure => exact .ret _ alike
  | ok handler =>
    dsimp only
    rw [alike.trees]
    have started := alike.setTree call.method (right.treeOrNew call.method)
    cases validateRouteSegments call.full call.segments with
    | some cause => exact .ret _ started
    | none =>
      dsimp only
      cases insertRoute call.method (call.payload handler)
          (right.treeOrNew call.method) call.segments with
      | panic => exact .panic
      | ret tree cause =>
        cases cause with
        | some cause => exact .ret _ (started.setTree call.method tree)
        | none =>
          exact .ret _ ((started.setTree call.method tree).recordRoute
            call.method call.full call.info)

/-! ## Calls and runs -/

theorem RouteCall.segments_valid {call : RouteCall H}
    (passed : validateRouteSegments call.full call.segments = none) :
    SegmentsValid call.segments :=
  validateSegmentsFrom_valid (fun _ member => compilePathSegments_compiled member) passed

theorem StateKeyed.setTree {state : RouterState H} {method : Bytes} {tree : Node H}
    (keyed : StateKeyed state) (treeKeyed : AllKeyed tree) :
    StateKeyed (state.setTree method tree) := by
  intro other
  rw [treeOrNew_setTree]
  split
  · exact treeKeyed
  · exact keyed other

/-- A call keeps every tree keyed, and a call that fails leaves a state alike to
the one before it. -/
theorem addRoute_keyed {state after : RouterState H} {call : RouteCall H}
    {failure : Option GoError} (keyed : StateKeyed state)
    (returned : addRoute state call = .ret after failure) :
    StateKeyed after ∧ (failure ≠ none → Alike after state) := by
  unfold addRoute at returned
  cases checkEq : checkCall state call with
  | error cause =>
    simp only [checkEq, Outcome.ret.injEq] at returned
    obtain ⟨rfl, rfl⟩ := returned
    exact ⟨keyed, fun _ => .refl state⟩
  | ok handler =>
    simp only [checkEq] at returned
    have same := alike_setTree_self state call.method
    have started : StateKeyed (state.setTree call.method (state.treeOrNew call.method)) :=
      keyed.setTree (keyed call.method)
    cases validEq : validateRouteSegments call.full call.segments with
    | some cause =>
      simp only [validEq, Outcome.ret.injEq] at returned
      obtain ⟨rfl, rfl⟩ := returned
      exact ⟨started, fun _ => same⟩
    | none =>
      simp only [validEq] at returned
      cases walkEq : insertRoute call.method (call.payload handler)
          (state.treeOrNew call.method) call.segments with
      | panic => simp [walkEq] at returned
      | ret tree cause =>
        have kept := insertRoute_keyed call.method (call.payload handler)
          call.segments _ tree cause (RouteCall.segments_valid validEq)
          (keyed call.method) walkEq
        cases cause with
        | none =>
          simp only [walkEq, Outcome.ret.injEq] at returned
          obtain ⟨rfl, rfl⟩ := returned
          refine ⟨?_, fun failed => absurd rfl failed⟩
          intro other
          rw [recordRoute_treeOrNew]
          exact started.setTree kept.keyed other
        | some cause =>
          simp only [walkEq, Outcome.ret.injEq] at returned
          obtain ⟨rfl, rfl⟩ := returned
          refine ⟨started.setTree kept.keyed, fun _ => ?_⟩
          -- the walk gave the tree back, so it is stored once more
          rw [kept.failed (by simp)]
          refine ⟨?_, rfl, rfl, rfl, rfl, rfl⟩
          intro other
          rw [treeOrNew_setTree]
          split
          case isTrue here => rw [here]
          case isFalse elsewhere => exact same.trees other

theorem stateKeyed_new (capacity : Int) : StateKeyed (newRouterState H capacity) :=
  fun _ => allKeyed_leaf rfl rfl

theorem stateKeyed_addRoutes {calls : List (RouteCall H)} :
    ∀ {state after : RouterState H}, StateKeyed state →
      addRoutes state calls = some after → StateKeyed after := by
  induction calls with
  | nil =>
    intro state after keyed reached
    exact Option.some.inj reached ▸ keyed
  | cons call calls ih =>
    intro state after keyed reached
    simp only [addRoutes] at reached
    cases callEq : addRoute state call with
    | panic => simp [callEq] at reached
    | ret middle failure =>
      simp only [callEq] at reached
      exact ih (addRoute_keyed keyed callEq).1 reached

/-- What the callers of a run of `AddRoute` calls are told: `none` for a panic,
which ends the run, and otherwise the error or its absence. -/
def outcomes (state : RouterState H) :
    List (RouteCall H) → List (Option (Option GoError))
  | [] => []
  | call :: calls =>
    match addRoute state call with
    | .panic => [none]
    | .ret after failure => some failure :: outcomes after calls

theorem Alike.outcomes {calls : List (RouteCall H)} :
    ∀ {left right : RouterState H}, Alike left right →
      outcomes left calls = outcomes right calls := by
  induction calls with
  | nil => exact fun _ => rfl
  | cons call calls ih =>
    intro left right alike
    have same := alike.addRoute call
    simp only [Router.outcomes]
    cases leftEq : Router.addRoute left call with
    | panic =>
      rw [leftEq] at same
      cases rightEq : Router.addRoute right call with
      | panic => rfl
      | ret after failure =>
        rw [rightEq] at same
        cases same
    | ret afterLeft failure =>
      rw [leftEq] at same
      cases rightEq : Router.addRoute right call with
      | panic =>
        rw [rightEq] at same
        cases same
      | ret afterRight other =>
        rw [rightEq] at same
        cases same with
        | ret _ after =>
          dsimp only
          rw [ih after]

theorem Alike.matchTree {left right : RouterState H} (alike : Alike left right)
    (method path : Bytes) : matchTree left method path = matchTree right method path := by
  rw [matchTree_eq, matchTree_eq, alike.trees]

theorem Alike.matchRoute {left right : RouterState H} (alike : Alike left right)
    (method path : Bytes) :
    matchRoute left method path = matchRoute right method path := by
  unfold Router.matchRoute
  simp only [alike.matchTree]

/-- The `Allow` lists agree although the method trees may be stored in another
order: both are sorted and have the same members. -/
theorem Alike.sortedMatching {left right : RouterState H} (alike : Alike left right)
    (path : Bytes) : sortedMatching left path = sortedMatching right path := by
  have perm : (matchingMethods left path).Perm (matchingMethods right path) := by
    rw [List.perm_ext_iff_of_nodup (nodup_matchingMethods left path)
      (nodup_matchingMethods right path)]
    intro method
    rw [mem_matchingMethods, mem_matchingMethods, alike.matchTree]
  apply eq_of_perm_sorted
  · exact (sortedMatching_perm left path).trans
      (perm.trans (sortedMatching_perm right path).symm)
  · exact sortedMatching_sorted left path
  · exact sortedMatching_sorted right path

theorem Alike.allowedMethods {left right : RouterState H} (alike : Alike left right)
    (path : Bytes) : allowedMethods left path = allowedMethods right path := by
  have rooted : ∀ state : RouterState H, Router.allowedMethods state path =
      Router.allowedMethods state (if path = [] then [slash] else path) := by
    intro state
    unfold Router.allowedMethods
    split
    · simp
    · simp
  have nonempty : (if path = [] then [slash] else path) ≠ [] := by
    split
    case isTrue empty => simp
    case isFalse nonempty => exact nonempty
  rw [rooted left, rooted right, allowedMethods_eq left nonempty,
    allowedMethods_eq right nonempty, alike.sortedMatching]

/-- A registration that fails, in any state that registrations reach, is as if
it had not been made: every request matches as before, every `Allow` list, the
route list and the named routes are the same, and every later sequence of
registrations is answered alike. -/
theorem addRoute_atomic (capacity : Int) (done : List (RouteCall H))
    (state after : RouterState H) (call : RouteCall H) (failure : GoError)
    (reached : addRoutes (newRouterState H capacity) done = some state)
    (failed : addRoute state call = .ret after (some failure)) :
    (∀ method path, matchRoute after method path = matchRoute state method path) ∧
      (∀ path, allowedMethods after path = allowedMethods state path) ∧
      (∀ visit arrange, routes visit arrange after = routes visit arrange state) ∧
      namedRoutesCopy after = namedRoutesCopy state ∧
      ∀ later, outcomes after later = outcomes state later := by
  have keyed : StateKeyed state := stateKeyed_addRoutes (stateKeyed_new capacity) reached
  have alike : Alike after state := (addRoute_keyed keyed failed).2 (by simp)
  refine ⟨alike.matchRoute, alike.allowedMethods, ?_, ?_, fun later => alike.outcomes⟩
  · intro visit arrange
    unfold routes
    rw [alike.routes]
  · unfold namedRoutesCopy
    rw [alike.namedRoutes]

/-- A GET registration of a path. -/
def getCall (path : String) : RouteCall Unit :=
  { method := methodGet, path := ascii path, handler := some () }

/-- `/é/:id` is followed by the conflicting `/é/:name`, which starts below a
child with a wide first byte. -/
theorem addRoute_atomic_conflict :
    ∃ state after failure,
      addRoutes (newRouterState Unit 1) [getCall "/é/:id"] = some state ∧
      addRoute state (getCall "/é/:name") = .ret after (some failure) ∧
      ∀ later, outcomes after later = outcomes state later := by
  have told : ((addRoutes (newRouterState Unit 1) [getCall "/é/:id"]).any fun state =>
      (outcomes state [getCall "/é/:name"]).any fun outcome => outcome.any Option.isSome) = true := by
    decide +kernel
  cases reached : addRoutes (newRouterState Unit 1) [getCall "/é/:id"] with
  | none => simp [reached] at told
  | some state =>
    cases callEq : addRoute state (getCall "/é/:name") with
    | panic => simp [reached, outcomes, callEq] at told
    | ret after cause =>
      cases cause with
      | none => simp [reached, outcomes, callEq] at told
      | some cause =>
        exact ⟨state, after, cause, rfl, callEq,
          (addRoute_atomic 1 _ state after _ cause reached callEq).2.2.2.2⟩

end Plumego.Router
