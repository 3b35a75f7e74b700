/-
Module: Plumego.Proofs.RouterRegistration
Purpose: The alignment invariant over whole tries and whole registration runs.
  Every node stays aligned, and no registration panics, exactly as long as no
  call inserts a child whose path starts with a byte from `0x80` on.
Trusted boundary: none
Main exports: WellIndexed, insertRoute_wellIndexed, RegistrationSafe, registrationSafe_iff
-/
import Plumego.Proofs.RouterLookup
import Plumego.Router.Registration

namespace Plumego.Router

open Go

variable {H : Type}

/-! ## Whole tries -/

/-- `node` occurs in the trie below (and including) `root`. -/
inductive Node.Within : Node H → Node H → Prop where
  | refl (root : Node H) : Within root root
  | child {root branch node : Node H} (member : branch ∈ root.children)
      (inside : Within branch node) : Within root node

theorem Node.forall_within_iff {root : Node H} {holds : Node H → Prop} :
    (∀ node, root.Within node → holds node) ↔
      holds root ∧ ∀ branch ∈ root.children, ∀ node, branch.Within node → holds node := by
  constructor
  · intro all
    exact ⟨all root (.refl root),
      fun branch member node inside => all node (.child member inside)⟩
  · intro parts node inside
    cases inside with
    | refl => exact parts.1
    | child member inside => exact parts.2 _ member node inside

/-- Every node of the trie is aligned. -/
def WellIndexed (root : Node H) : Prop :=
  ∀ node, root.Within node → NodeAligned node

theorem wellIndexed_iff {root : Node H} :
    WellIndexed root ↔
      NodeAligned root ∧ ∀ branch ∈ root.children, WellIndexed branch :=
  Node.forall_within_iff

/-- Alignment reads only the indices and the child paths. -/
theorem NodeAligned.congr {left right : Node H} (aligned : NodeAligned left)
    (indices : right.indices = left.indices)
    (paths : right.children.map (·.path) = left.children.map (·.path)) :
    NodeAligned right := by
  have heads : HeadsAligned right.indices right.children := by
    have mapped : List.Forall₂ (fun byte path => path.head? = some byte)
        left.indices (left.children.map (·.path)) :=
      List.forall₂_map_right_iff.mpr aligned.heads
    rw [← paths, ← indices] at mapped
    exact List.forall₂_map_right_iff.mp mapped
  refine .of_heads heads ?_ ?_
  · rw [indices]
    exact aligned.sorted
  · rw [paths]
    exact aligned.distinct

/-- Replacing a child by one with the same path keeps the child paths. -/
theorem setChild_paths {parent old new : Node H} {index : Nat}
    (oldEq : parent.children[index]? = some old) (samePath : new.path = old.path) :
    (parent.setChild index new).children.map (·.path) =
      parent.children.map (·.path) := by
  simp only [Node.setChild, List.map_set, samePath]
  obtain ⟨bound, getEq⟩ := List.getElem?_eq_some_iff.mp oldEq
  apply List.ext_getElem?
  intro position
  rw [List.getElem?_set]
  by_cases same : index = position
  · subst same
    simp [bound, getEq]
  · simp [same]

/-- Replacing a child by a well-indexed one with the same path keeps the whole
trie well indexed. -/
theorem WellIndexed.setChild {parent old new : Node H} {index : Nat}
    (indexed : WellIndexed parent)
    (oldEq : parent.children[index]? = some old) (samePath : new.path = old.path)
    (newIndexed : WellIndexed new) : WellIndexed (parent.setChild index new) := by
  obtain ⟨aligned, below⟩ := wellIndexed_iff.mp indexed
  refine wellIndexed_iff.mpr
    ⟨aligned.congr rfl (setChild_paths oldEq samePath), ?_⟩
  intro branch member
  rcases List.mem_or_eq_of_mem_set member with old | rfl
  · exact below branch old
  · exact newIndexed

/-- The index a segment descends to is a valid child position. -/
theorem findSegmentIndex_lt {current : Node H} {seg : Segment} {index : Nat}
    (aligned : NodeAligned current)
    (found : findSegmentIndex current seg = some index) :
    index < current.children.length := by
  unfold findSegmentIndex at found
  rw [findIndexByByte_eq aligned, findIndexByByte_eq aligned,
    findStaticIndex_eq aligned] at found
  split at found
  · exact (List.findIdx?_eq_some_iff_findIdx_eq.mp found).1
  · split at found
    · exact (List.findIdx?_eq_some_iff_findIdx_eq.mp found).1
    · exact (List.findIdx?_eq_some_iff_findIdx_eq.mp found).1

/-- A segment without a child is new to the node. -/
theorem newSegmentNode_fresh {current : Node H} {seg : Segment}
    (aligned : NodeAligned current)
    (missing : findSegmentIndex current seg = none) :
    ∀ other ∈ current.children, other.path ≠ (newSegmentNode seg : Node H).path := by
  intro other member equality
  unfold findSegmentIndex at missing
  rw [findIndexByByte_eq aligned, findIndexByByte_eq aligned,
    findStaticIndex_eq aligned] at missing
  unfold newSegmentNode at equality
  by_cases param : seg.isParam = true
  · simp only [param, if_true] at missing equality
    have absent := List.findIdx?_eq_none_iff.mp missing other member
    simp [equality] at absent
  · by_cases wild : seg.isWild = true
    · simp only [param, wild, if_true] at missing equality
      have absent := List.findIdx?_eq_none_iff.mp missing other member
      simp [equality] at absent
    · simp only [param, wild] at missing equality
      have absent := List.findIdx?_eq_none_iff.mp missing other member
      simp [equality] at absent

/-! ## The registration walk -/

/-- The node created for the segment has a path starting at `0x80` or above.
Parameter and wildcard nodes have the ASCII paths `:` and `*`. -/
def Segment.startsWide (seg : Segment) : Bool :=
  !seg.isParam && !seg.isWild &&
    match seg.raw with
    | [] => false
    | first :: _ => !decide (first < 0x80)

/-- Registering the segments below `current` inserts a child whose path starts
at `0x80` or above. Once one child is missing, every later segment gets a new
node as well. -/
def insertsWide : Node H → List Segment → Bool
  | _, [] => false
  | current, seg :: rest =>
    match findSegmentIndex current seg with
    | none => (seg :: rest).any (·.startsWide)
    | some index =>
      match (current.children[index]?).bind (enterChild seg) with
      | none => false
      | some child => insertsWide child rest

/-- A new node's path and its first byte. -/
theorem newSegmentNode_path {seg : Segment} (nonempty : seg.raw ≠ []) :
    ∃ first rest, (newSegmentNode seg : Node H).path = first :: rest ∧
      (first < 0x80 ↔ seg.startsWide = false) := by
  unfold newSegmentNode Segment.startsWide
  by_cases param : seg.isParam = true
  · refine ⟨colon, [], by simp [param], ?_⟩
    simp only [param, Bool.not_true, Bool.false_and, iff_true]
    decide
  · by_cases wild : seg.isWild = true
    · refine ⟨star, [], by simp [param, wild], ?_⟩
      simp only [wild, Bool.not_true, Bool.and_false, Bool.false_and, iff_true]
      decide
    · cases rawEq : seg.raw with
      | nil => exact absurd rawEq nonempty
      | cons first rest =>
        exact ⟨first, rest, by simp [param, wild], by simp [param, wild]⟩

theorem newSegmentNode_leaf (seg : Segment) :
    (newSegmentNode seg : Node H).children = [] ∧
      (newSegmentNode seg : Node H).indices = [] := by
  unfold newSegmentNode
  split
  · exact ⟨rfl, rfl⟩
  · split <;> exact ⟨rfl, rfl⟩

theorem wellIndexed_newSegmentNode (seg : Segment) :
    WellIndexed (newSegmentNode seg : Node H) := by
  obtain ⟨noChildren, noIndices⟩ := newSegmentNode_leaf (H := H) seg
  refine wellIndexed_iff.mpr ⟨.leaf noIndices noChildren, ?_⟩
  simp [noChildren]

theorem findSegmentIndex_leaf {current : Node H} (leaf : current.children = [])
    (seg : Segment) : findSegmentIndex current seg = none := by
  simp [findSegmentIndex, findIndexByByte, findStaticIndex, leaf]

/-- Below a leaf every segment is inserted. -/
theorem insertsWide_leaf {current : Node H} (leaf : current.children = [])
    (segs : List Segment) :
    insertsWide current segs = segs.any (·.startsWide) := by
  cases segs with
  | nil => rfl
  | cons seg rest => simp [insertsWide, findSegmentIndex_leaf leaf]

/-- Entering a child changes at most its parameter name. -/
theorem enterChild_some {seg : Segment} {child entered : Node H}
    (entry : enterChild seg child = some entered) :
    entered.path = child.path ∧ entered.indices = child.indices ∧
      entered.children = child.children := by
  unfold enterChild at entry
  split at entry
  · split at entry
    · cases entry
      exact ⟨rfl, rfl, rfl⟩
    · split at entry
      · cases entry
      · cases entry
        exact ⟨rfl, rfl, rfl⟩
  · cases entry
    exact ⟨rfl, rfl, rfl⟩

theorem WellIndexed.enterChild {seg : Segment} {child entered : Node H}
    (indexed : WellIndexed child) (entry : enterChild seg child = some entered) :
    WellIndexed entered := by
  obtain ⟨_, indicesEq, childrenEq⟩ := enterChild_some entry
  obtain ⟨aligned, below⟩ := wellIndexed_iff.mp indexed
  refine wellIndexed_iff.mpr ⟨aligned.congr indicesEq (by rw [childrenEq]), ?_⟩
  rw [childrenEq]
  exact below

theorem finalizeNode_ret (method : Bytes) (payload : Payload H)
    (current : Node H) :
    ∃ tree failure, finalizeNode method payload current = .ret tree failure ∧
      tree.path = current.path ∧ tree.indices = current.indices ∧
      tree.children = current.children := by
  unfold finalizeNode
  split
  · exact ⟨_, _, rfl, rfl, rfl, rfl⟩
  · exact ⟨_, _, rfl, rfl, rfl, rfl⟩

/-- The grown parent holds the new child at the insertion position. -/
theorem grownParent_getElem? {parent child : Node H} {first : UInt8}
    (aligned : NodeAligned parent) :
    (grownParent parent child first).children[insertPosition parent.indices first]? =
      some child := by
  have bound := insertPosition_le parent.indices first
  rw [aligned.length] at bound
  simp only [grownParent]
  rw [List.getElem?_append_right (by rw [List.length_take]; omega)]
  simp [Nat.min_eq_left bound]

section WalkEquations

variable {method : Bytes} {payload : Payload H} {current child : Node H}
  {seg : Segment} {rest : List Segment} {index : Nat}

/-- A name mismatch ends the walk with the node unchanged. -/
theorem insertRoute_conflict (found : findSegmentIndex current seg = some index)
    (childEq : current.children[index]? = some child)
    (mismatch : enterChild seg child = none) :
    ∃ failure, insertRoute method payload current (seg :: rest) =
      .ret current (some failure) := by
  refine ⟨.errorf (conflictFormat seg) [.bytes method, .bytes payload.fullPath,
    .bytes child.paramName, .bytes seg.paramName], ?_⟩
  simp only [insertRoute, found, childEq, mismatch]

/-- An existing child is entered and put back. -/
theorem insertRoute_enter {entered : Node H}
    (found : findSegmentIndex current seg = some index)
    (childEq : current.children[index]? = some child)
    (entry : enterChild seg child = some entered) :
    insertRoute method payload current (seg :: rest) =
      (insertRoute method payload entered rest).map (current.setChild index) := by
  simp only [insertRoute, found, childEq, entry]

/-- A missing child of an aligned node is inserted and entered. -/
theorem insertRoute_insert {first : UInt8} {tail : Bytes}
    (aligned : NodeAligned current)
    (missing : findSegmentIndex current seg = none)
    (newPath : (newSegmentNode seg : Node H).path = first :: tail) :
    insertRoute method payload current (seg :: rest) =
      (insertRoute method payload (newSegmentNode seg) rest).map
        ((grownParent current (newSegmentNode seg) first).setChild
          (insertPosition current.indices first)) := by
  simp only [insertRoute, missing, insertChild_of_aligned aligned newPath]

end WalkEquations

/-- A walk that inserts only children starting with ASCII bytes returns, keeps
the path of its node and keeps the trie well indexed. -/
theorem insertRoute_wellIndexed (method : Bytes) (payload : Payload H) :
    ∀ (segs : List Segment) (current : Node H),
      (∀ seg ∈ segs, seg.raw ≠ []) → WellIndexed current →
      insertsWide current segs = false →
      ∃ tree failure, insertRoute method payload current segs =
          .ret tree failure ∧
        tree.path = current.path ∧ WellIndexed tree
  | [], current, _, indexed, _ => by
      obtain ⟨tree, failure, equation, pathEq, indicesEq, childrenEq⟩ :=
        finalizeNode_ret method payload current
      obtain ⟨aligned, below⟩ := wellIndexed_iff.mp indexed
      refine ⟨tree, failure, equation, pathEq, wellIndexed_iff.mpr ⟨?_, ?_⟩⟩
      · exact aligned.congr indicesEq (by rw [childrenEq])
      · rw [childrenEq]
        exact below
  | seg :: rest, current, nonempty, indexed, narrow => by
      obtain ⟨aligned, below⟩ := wellIndexed_iff.mp indexed
      have restNonempty := List.forall_mem_of_forall_mem_cons nonempty
      cases foundEq : findSegmentIndex current seg with
      | some index =>
        have bound := findSegmentIndex_lt aligned foundEq
        have childEq := List.getElem?_eq_getElem bound
        cases entryEq : enterChild seg current.children[index] with
        | none =>
          obtain ⟨failure, equation⟩ :=
            insertRoute_conflict foundEq childEq entryEq
          exact ⟨current, some failure, equation, rfl, indexed⟩
        | some entered =>
          have enteredIndexed : WellIndexed entered :=
            (below _ (List.getElem_mem bound)).enterChild entryEq
          have enteredNarrow : insertsWide entered rest = false := by
            simpa [insertsWide, foundEq, childEq, entryEq] using narrow
          obtain ⟨tree, failure, equation, pathEq, treeIndexed⟩ :=
            insertRoute_wellIndexed method payload rest entered restNonempty
              enteredIndexed enteredNarrow
          refine ⟨current.setChild index tree, failure, ?_, rfl, ?_⟩
          · rw [insertRoute_enter foundEq childEq entryEq, equation]
            rfl
          · exact indexed.setChild childEq
              (pathEq.trans (enterChild_some entryEq).1) treeIndexed
      | none =>
        have allNarrow : (seg :: rest).any (·.startsWide) = false := by
          simpa [insertsWide, foundEq] using narrow
        rw [List.any_cons, Bool.or_eq_false_iff] at allNarrow
        obtain ⟨first, tail, newPath, narrowIff⟩ :=
          newSegmentNode_path (H := H) (nonempty seg List.mem_cons_self)
        have leaf := (newSegmentNode_leaf (H := H) seg).1
        obtain ⟨tree, failure, equation, pathEq, treeIndexed⟩ :=
          insertRoute_wellIndexed method payload rest (newSegmentNode seg)
            restNonempty (wellIndexed_newSegmentNode seg)
            (by rw [insertsWide_leaf leaf]; exact allNarrow.2)
        have grownIndexed : WellIndexed
            (grownParent current (newSegmentNode seg) first) := by
          refine wellIndexed_iff.mpr ⟨grownParent_aligned aligned newPath
            (narrowIff.mpr allNarrow.1)
            (newSegmentNode_fresh aligned foundEq), ?_⟩
          intro branch member
          simp only [grownParent, List.mem_append, List.mem_cons] at member
          rcases member with early | rfl | late
          · exact below branch (List.mem_of_mem_take early)
          · exact wellIndexed_newSegmentNode seg
          · exact below branch (List.mem_of_mem_drop late)
        refine ⟨(grownParent current (newSegmentNode seg) first).setChild
          (insertPosition current.indices first) tree, failure, ?_, rfl, ?_⟩
        · rw [insertRoute_insert aligned foundEq newPath, equation]
          rfl
        · exact grownIndexed.setChild (grownParent_getElem? aligned) pathEq
            treeIndexed

theorem Outcome.map_ret {S T : Type} {transform : S → T} {outcome : Outcome S}
    {result : T} {failure : Option GoError}
    (mapped : outcome.map transform = .ret result failure) :
    ∃ state, outcome = .ret state failure ∧ result = transform state := by
  cases outcome with
  | panic => simp [Outcome.map] at mapped
  | ret state cause =>
    simp only [Outcome.map, Outcome.ret.injEq] at mapped
    exact ⟨state, by rw [mapped.2], mapped.1.symm⟩

/-- A subtree that is not well indexed spoils the trie that holds it. -/
theorem not_wellIndexed_setChild {parent branch : Node H} {index : Nat}
    (bound : index < parent.children.length) (spoiled : ¬ WellIndexed branch) :
    ¬ WellIndexed (parent.setChild index branch) := by
  intro indexed
  refine spoiled ((wellIndexed_iff.mp indexed).2 branch ?_)
  exact List.mem_set bound branch

/-- A walk that inserts a child starting at `0x80` or above leaves a node whose
index text is longer than its child list, if it returns at all. -/
theorem insertRoute_wide (method : Bytes) (payload : Payload H) :
    ∀ (segs : List Segment) (current : Node H),
      (∀ seg ∈ segs, seg.raw ≠ []) → WellIndexed current →
      insertsWide current segs = true →
      ∀ tree failure, insertRoute method payload current segs =
        .ret tree failure → ¬ WellIndexed tree
  | [], _, _, _, wide, _, _, _ => by simp [insertsWide] at wide
  | seg :: rest, current, nonempty, indexed, wide, tree, failure, equation => by
      obtain ⟨aligned, below⟩ := wellIndexed_iff.mp indexed
      have restNonempty := List.forall_mem_of_forall_mem_cons nonempty
      cases foundEq : findSegmentIndex current seg with
      | some index =>
        have bound := findSegmentIndex_lt aligned foundEq
        have childEq := List.getElem?_eq_getElem bound
        cases entryEq : enterChild seg current.children[index] with
        | none => simp [insertsWide, foundEq, childEq, entryEq] at wide
        | some entered =>
          have enteredWide : insertsWide entered rest = true := by
            simpa [insertsWide, foundEq, childEq, entryEq] using wide
          rw [insertRoute_enter foundEq childEq entryEq] at equation
          obtain ⟨branch, inner, rfl⟩ := Outcome.map_ret equation
          exact not_wellIndexed_setChild bound
            (insertRoute_wide method payload rest entered restNonempty
              ((below _ (List.getElem_mem bound)).enterChild entryEq)
              enteredWide branch failure inner)
      | none =>
        have someWide : (seg :: rest).any (·.startsWide) = true := by
          simpa [insertsWide, foundEq] using wide
        obtain ⟨first, tail, newPath, narrowIff⟩ :=
          newSegmentNode_path (H := H) (nonempty seg List.mem_cons_self)
        rw [insertRoute_insert aligned foundEq newPath] at equation
        obtain ⟨branch, inner, rfl⟩ := Outcome.map_ret equation
        cases segWide : seg.startsWide with
        | true =>
          intro treeIndexed
          have lengths := (treeIndexed _ (.refl _)).length
          have notNarrow : ¬ first < 0x80 :=
            fun narrow => by simp [narrowIff.mp narrow] at segWide
          have drift := grownParent_wide (newSegmentNode seg) aligned notNarrow
          simp only [Node.setChild, List.length_set] at lengths
          omega
        | false =>
          have restWide : rest.any (·.startsWide) = true := by
            simpa [segWide] using someWide
          have leaf := (newSegmentNode_leaf (H := H) seg).1
          refine not_wellIndexed_setChild ?_
            (insertRoute_wide method payload rest (newSegmentNode seg)
              restNonempty (wellIndexed_newSegmentNode seg)
              (by rw [insertsWide_leaf leaf]; exact restWide) branch failure
              inner)
          exact (List.getElem?_eq_some_iff.mp
            (grownParent_getElem? aligned)).1

/-! ## Registration calls and runs -/

/-- What a segment that passes its checks satisfies. -/
theorem segmentError_none {path : Bytes} {seg : Segment} {last : Bool}
    (passed : segmentError path seg last = none) :
    seg.raw ≠ [] ∧ (seg.isParam = true → seg.paramName ≠ []) ∧
      (seg.isWild = true → seg.paramName ≠ [] ∧ last = true) := by
  unfold segmentError at passed
  split_ifs at passed with noRaw noName badName noWild badWild inner
  refine ⟨noRaw, fun param empty => noName ⟨param, empty⟩, ?_⟩
  intro wild
  refine ⟨fun empty => noWild ⟨wild, empty⟩, ?_⟩
  cases last with
  | true => rfl
  | false => exact absurd ⟨wild, rfl⟩ inner

/-- The validation loop checks its first segment and goes on. -/
theorem validateSegmentsFrom_cons {path : Bytes} {seenParams : List Bytes}
    {seg : Segment} {rest : List Segment}
    (passed : validateSegmentsFrom path seenParams (seg :: rest) = none) :
    segmentError path seg rest.isEmpty = none ∧
      ∃ seen, validateSegmentsFrom path seen rest = none := by
  simp only [validateSegmentsFrom] at passed
  split at passed
  · simp at passed
  · rename_i checked
    refine ⟨checked, ?_⟩
    split at passed
    · split at passed
      · simp at passed
      · exact ⟨_, passed⟩
    · exact ⟨_, passed⟩

theorem validateSegmentsFrom_raw {path : Bytes} {segs : List Segment} :
    ∀ {seenParams : List Bytes},
      validateSegmentsFrom path seenParams segs = none →
      ∀ seg ∈ segs, seg.raw ≠ [] := by
  induction segs with
  | nil => simp
  | cons first rest ih =>
    intro seenParams passed seg member
    obtain ⟨checked, seen, tail⟩ := validateSegmentsFrom_cons passed
    rcases List.mem_cons.mp member with rfl | inTail
    · exact (segmentError_none checked).1
    · exact ih tail seg inTail

/-- Every method tree of the state is well indexed. -/
def StateIndexed (state : RouterState H) : Prop :=
  ∀ method tree, state.trees.lookup method = some tree → WellIndexed tree

/-- The call gets past its checks and inserts a child whose path starts at
`0x80` or above. -/
def addsWideChild (state : RouterState H) (call : RouteCall H) : Bool :=
  match checkCall state call with
  | .error _ => false
  | .ok _ =>
    (validateRouteSegments call.full call.segments).isNone &&
      insertsWide (state.treeOrNew call.method) call.segments

theorem wellIndexed_empty : WellIndexed ({} : Node H) :=
  wellIndexed_iff.mpr ⟨.leaf rfl rfl, by simp⟩

theorem StateIndexed.treeOrNew {state : RouterState H}
    (indexed : StateIndexed state) (method : Bytes) :
    WellIndexed (state.treeOrNew method) := by
  unfold RouterState.treeOrNew
  cases treeEq : state.trees.lookup method with
  | none => exact wellIndexed_empty
  | some tree => exact indexed method tree treeEq

theorem StateIndexed.setTree {state : RouterState H} {method : Bytes}
    {tree : Node H} (indexed : StateIndexed state) (treeIndexed : WellIndexed tree) :
    StateIndexed (state.setTree method tree) := by
  intro other found lookup
  by_cases same : other = method
  · subst same
    simp only [RouterState.setTree, AList.lookup_insert, Option.some.injEq] at lookup
    exact lookup ▸ treeIndexed
  · simp only [RouterState.setTree, AList.lookup_insert_ne same] at lookup
    exact indexed other found lookup

@[simp] theorem recordRoute_trees (state : RouterState H) (method full : Bytes)
    (info : RouteMeta) : (recordRoute state method full info).trees = state.trees := by
  unfold recordRoute
  split <;> rfl

/-- A call that inserts no wide child returns and keeps every tree well
indexed, whether it succeeds or fails. -/
theorem addRoute_stateIndexed {state : RouterState H} {call : RouteCall H}
    (indexed : StateIndexed state) (narrow : addsWideChild state call = false) :
    ∃ after failure, addRoute state call = .ret after failure ∧
      StateIndexed after := by
  unfold addRoute
  unfold addsWideChild at narrow
  cases checkEq : checkCall state call with
  | error failure => exact ⟨state, some failure, rfl, indexed⟩
  | ok handler =>
    have rootIndexed := indexed.treeOrNew call.method
    have started : StateIndexed
        (state.setTree call.method (state.treeOrNew call.method)) :=
      indexed.setTree rootIndexed
    simp only [checkEq] at narrow
    cases validEq : validateRouteSegments call.full call.segments with
    | some cause => exact ⟨_, _, rfl, started⟩
    | none =>
      have walkNarrow : insertsWide (state.treeOrNew call.method)
          call.segments = false := by simpa [validEq] using narrow
      obtain ⟨tree, failure, equation, _, treeIndexed⟩ :=
        insertRoute_wellIndexed call.method (call.payload handler)
          call.segments (state.treeOrNew call.method)
          (validateSegmentsFrom_raw validEq) rootIndexed walkNarrow
      simp only [equation]
      cases failure with
      | some failure => exact ⟨_, _, rfl, started.setTree treeIndexed⟩
      | none =>
        refine ⟨_, _, rfl, ?_⟩
        unfold StateIndexed
        rw [recordRoute_trees]
        exact started.setTree treeIndexed

/-- A call that inserts a wide child leaves a tree that is not well indexed, if
it returns at all. -/
theorem addRoute_wide {state after : RouterState H} {call : RouteCall H}
    {failure : Option GoError} (indexed : StateIndexed state)
    (wide : addsWideChild state call = true)
    (returned : addRoute state call = .ret after failure) :
    ¬ StateIndexed after := by
  unfold addRoute at returned
  unfold addsWideChild at wide
  cases checkEq : checkCall state call with
  | error cause => simp [checkEq] at wide
  | ok handler =>
    simp only [checkEq, Bool.and_eq_true, Option.isNone_iff_eq_none] at wide
    simp only [checkEq, wide.1] at returned
    cases walkEq : insertRoute call.method (call.payload handler)
        (state.treeOrNew call.method) call.segments with
    | panic => simp [walkEq] at returned
    | ret tree cause =>
      have spoiled : ¬ WellIndexed tree :=
        insertRoute_wide call.method (call.payload handler) call.segments
          (state.treeOrNew call.method) (validateSegmentsFrom_raw wide.1)
          (indexed.treeOrNew call.method) wide.2 tree cause walkEq
      intro afterIndexed
      refine spoiled (afterIndexed call.method tree ?_)
      cases cause with
      | none =>
        simp only [walkEq, Outcome.ret.injEq] at returned
        rw [← returned.1, recordRoute_trees]
        simp [RouterState.setTree]
      | some cause =>
        simp only [walkEq, Outcome.ret.injEq] at returned
        rw [← returned.1]
        simp [RouterState.setTree]

/-- A run of `AddRoute` calls; `none` when one of them panics. -/
def addRoutes (state : RouterState H) : List (RouteCall H) → Option (RouterState H)
  | [] => some state
  | call :: calls =>
    match addRoute state call with
    | .panic => none
    | .ret after _ => addRoutes after calls

theorem addRoutes_append (state : RouterState H) (first second : List (RouteCall H)) :
    addRoutes state (first ++ second) =
      (addRoutes state first).bind fun middle => addRoutes middle second := by
  induction first generalizing state with
  | nil => rfl
  | cons call calls ih =>
    simp only [List.cons_append, addRoutes]
    cases addRoute state call with
    | panic => rfl
    | ret after failure => exact ih after

/-- In a well-indexed trie every node finds a static child by its path,
whichever way the lookup goes. -/
def LookupExact (root : Node H) : Prop :=
  ∀ node, root.Within node → ∀ child ∈ node.children,
    findStaticChild node child.path = some child

theorem WellIndexed.lookupExact {root : Node H} (indexed : WellIndexed root) :
    LookupExact root := by
  intro node inside child member
  have aligned := indexed node inside
  have found : node.children.findIdx? (·.path == child.path) =
      some (node.children.findIdx (·.path == child.path)) := by
    apply List.findIdx?_eq_some_of_exists
    exact ⟨child, member, by simp⟩
  unfold findStaticChild
  rw [findStaticIndex_eq aligned, found, Option.bind_some]
  obtain ⟨bound, hit⟩ := List.findIdx?_eq_some_iff_getElem.mp found
  rw [List.getElem?_eq_getElem bound]
  -- distinct paths make the first hit the child itself
  have samePath : (node.children[node.children.findIdx (·.path == child.path)]).path =
      child.path := by simpa using hit.1
  exact congrArg some (List.inj_on_of_nodup_map aligned.distinct
    (List.getElem_mem bound) member samePath)

/-- Registration safety of a run from a fresh router: no call panics, and after
every prefix of the run every node of every method tree is aligned and finds
its static children. -/
def RegistrationSafe (capacity : Int) (calls : List (RouteCall H)) : Prop :=
  ∀ done, done <+: calls →
    ∃ state, addRoutes (newRouterState H capacity) done = some state ∧
      ∀ method tree, state.trees.lookup method = some tree →
        (∀ node, tree.Within node → NodeAligned node) ∧ LookupExact tree

theorem stateIndexed_new (capacity : Int) :
    StateIndexed (newRouterState H capacity) := by
  intro method tree lookup
  simp [newRouterState] at lookup

/-- Registration is safe exactly as long as no call of the run inserts a child
whose path starts with a byte from `0x80` on: `insertChild` stores
`string(byte)`, two bytes of UTF-8 there, next to one child. -/
theorem registrationSafe_iff (capacity : Int) (calls : List (RouteCall H)) :
    RegistrationSafe capacity calls ↔
      ∀ done call, done ++ [call] <+: calls →
        ∀ state, addRoutes (newRouterState H capacity) done = some state →
          addsWideChild state call = false := by
  constructor
  · intro safe done call extended state reached
    obtain ⟨before, beforeEq, beforeOk⟩ :=
      safe done ((List.prefix_append done [call]).trans extended)
    obtain ⟨after, afterEq, afterOk⟩ := safe (done ++ [call]) extended
    rw [reached, Option.some.injEq] at beforeEq
    subst beforeEq
    have indexed : StateIndexed state :=
      fun method tree lookup => (beforeOk method tree lookup).1
    rw [addRoutes_append, reached, Option.bind_some] at afterEq
    cases wideEq : addsWideChild state call with
    | false => rfl
    | true =>
      exfalso
      simp only [addRoutes] at afterEq
      cases callEq : addRoute state call with
      | panic => simp [callEq] at afterEq
      | ret next failure =>
        simp only [callEq, Option.some.injEq] at afterEq
        subst afterEq
        exact addRoute_wide indexed wideEq callEq
          fun method tree lookup => (afterOk method tree lookup).1
  · intro narrow done extended
    -- induction on the prefix from the right: each call starts from the state before it
    have reached : ∃ state, addRoutes (newRouterState H capacity) done = some state ∧
        StateIndexed state := by
      induction done using List.reverseRecOn with
      | nil => exact ⟨_, rfl, stateIndexed_new capacity⟩
      | append_singleton done call ih =>
        obtain ⟨before, beforeEq, indexed⟩ := ih
          ((List.prefix_append done [call]).trans extended)
        obtain ⟨after, failure, callEq, afterIndexed⟩ := addRoute_stateIndexed
          indexed (narrow done call extended before beforeEq)
        refine ⟨after, ?_, afterIndexed⟩
        rw [addRoutes_append, beforeEq, Option.bind_some]
        simp only [addRoutes, callEq]
    obtain ⟨state, stateEq, indexed⟩ := reached
    exact ⟨state, stateEq, fun method tree lookup =>
      ⟨indexed method tree lookup, (indexed method tree lookup).lookupExact⟩⟩

/-- Two routes on one method whose segments `é` and `ê` start with the same
byte `0xC3`. -/
def wideCalls : List (RouteCall Unit) :=
  [{ method := ascii "GET", path := [slash, 0xC3, 0xA9], handler := some () },
    { method := ascii "GET", path := [slash, 0xC3, 0xAA], handler := some () }]

/-- Registering `/é` and then `/ê` panics: the first registration leaves two
index bytes beside one child, and the second slices past the children. -/
theorem registration_wide_panics : ¬ RegistrationSafe 100 wideCalls := by
  intro safe
  obtain ⟨state, reached, _⟩ := safe wideCalls (List.prefix_refl _)
  have panics : (addRoutes (newRouterState Unit 100) wideCalls).isNone = true := by
    decide
  simp [reached] at panics

end Plumego.Router
