/-
Module: Plumego.Proofs.RouterTable
Purpose: The method tree as a table of patterns. The trie is read as a map from
  pattern segments to route data; a registration either fails and leaves the
  tree as it was, or adds exactly its own pattern.
Trusted boundary: none
Main exports: Node.label, trieView, Shaped, RouteTable
-/
import Plumego.Lib.LabelTree
import Plumego.Proofs.RouterRegistration

namespace Plumego.Router

open Go
open Lib (TreeView)

variable {H : Type}

/-! ## The trie as a map -/

/-- The pattern segment a child stands for: reserved children carry their name
beside the reserved byte, static ones have no name. -/
def Node.label (node : Node H) : Bytes := node.path ++ node.paramName

/-- The route data of a node, if it ends a registered pattern. -/
def Node.entry (node : Node H) : Option (Payload H) :=
  node.handler.map fun handler =>
    { handler := handler
      paramKeys := node.paramKeys
      fullPath := node.fullPath
      routeName := node.routeName }

/-- A method tree as a map from pattern segments to route data. -/
def trieView (H : Type) : TreeView (Node H) Bytes (Payload H) where
  children := Node.children
  label := Node.label
  value := Node.entry

/-- The child path under which a pattern segment is stored. -/
def segmentKey (label : Bytes) : Bytes :=
  if label.head? = some colon then [colon]
  else if label.head? = some star then [star]
  else label

/-- The three kinds of child: a named parameter, a named wildcard without
children, and a static segment that starts with neither reserved byte. -/
inductive ChildShaped (child : Node H) : Prop where
  | param (path : child.path = [colon]) (named : child.paramName ≠ [])
  | wild (path : child.path = [star]) (named : child.paramName ≠ [])
      (final : child.children = [])
  | static (nonempty : child.path ≠ []) (notParam : child.path.head? ≠ some colon)
      (notWild : child.path.head? ≠ some star) (unnamed : child.paramName = [])

/-- Every child in the trie is of one of the three kinds. -/
def Shaped (root : Node H) : Prop :=
  ∀ node, root.Within node → ∀ child ∈ node.children, ChildShaped child

theorem shaped_iff {root : Node H} :
    Shaped root ↔ (∀ child ∈ root.children, ChildShaped child) ∧
      ∀ branch ∈ root.children, Shaped branch :=
  Node.forall_within_iff

theorem shaped_leaf {node : Node H} (leaf : node.children = []) : Shaped node := by
  refine shaped_iff.mpr ⟨?_, ?_⟩
  · simp [leaf]
  · simp [leaf]

/-- Shape reads only the children. -/
theorem Shaped.of_children {node other : Node H} (shaped : Shaped node)
    (same : other.children = node.children) : Shaped other := by
  rw [shaped_iff, same]
  exact shaped_iff.mp shaped

/-- A child's path is the key of its label. -/
theorem ChildShaped.key {child : Node H} (shaped : ChildShaped child) :
    segmentKey child.label = child.path := by
  cases shaped with
  | param path named => simp [segmentKey, Node.label, path]
  | wild path named final => simp [segmentKey, Node.label, path, star_ne_colon]
  | static nonempty notParam notWild unnamed =>
    simp [segmentKey, Node.label, unnamed, notParam, notWild]

/-- The children of an aligned and shaped node have distinct labels. -/
theorem labels_nodup {node : Node H} (aligned : NodeAligned node)
    (shaped : ∀ child ∈ node.children, ChildShaped child) :
    ((trieView H).children node |>.map (trieView H).label).Nodup := by
  have keyed : (node.children.map Node.label).map segmentKey =
      node.children.map (·.path) := by
    rw [List.map_map]
    exact List.map_congr_left fun child member => (shaped child member).key
  have distinct := aligned.distinct
  rw [← keyed] at distinct
  exact List.Nodup.of_map segmentKey distinct

/-! ## Validated segments -/

/-- A segment as `validateRouteSegments` lets it through, with the segments
that follow it. -/
structure SegmentValid (seg : Segment) (rest : List Segment) : Prop where
  compiled : seg = compileSegment seg.raw
  nonempty : seg.raw ≠ []
  named : seg.isParam = true ∨ seg.isWild = true → seg.paramName ≠ []
  final : seg.isWild = true → rest = []

/-- Every segment of the pattern is valid where it stands. -/
def SegmentsValid : List Segment → Prop
  | [] => True
  | seg :: rest => SegmentValid seg rest ∧ SegmentsValid rest

theorem segmentsValid_raw {segs : List Segment} (valid : SegmentsValid segs) :
    ∀ seg ∈ segs, seg.raw ≠ [] := by
  induction segs with
  | nil => simp
  | cons first rest ih =>
    intro seg member
    rcases List.mem_cons.mp member with rfl | inTail
    · exact valid.1.nonempty
    · exact ih valid.2 seg inTail

/-- The three ways a valid segment is compiled. -/
theorem SegmentValid.cases {seg : Segment} {rest : List Segment}
    (valid : SegmentValid seg rest) :
    (seg.isParam = true ∧ seg.isWild = false ∧ seg.raw = colon :: seg.paramName ∧
        seg.paramName ≠ []) ∨
      (seg.isParam = false ∧ seg.isWild = true ∧ seg.raw = star :: seg.paramName ∧
        seg.paramName ≠ [] ∧ rest = []) ∨
      (seg.isParam = false ∧ seg.isWild = false ∧ seg.paramName = [] ∧
        seg.raw.head? ≠ some colon ∧ seg.raw.head? ≠ some star) := by
  obtain ⟨compiled, nonempty, named, final⟩ := valid
  cases rawEq : seg.raw with
  | nil => exact absurd rawEq nonempty
  | cons first tail =>
    rw [rawEq, compileSegment] at compiled
    by_cases param : first = colon
    · subst param
      simp only [List.head?_cons, if_true, List.tail_cons] at compiled
      left
      rw [compiled] at named ⊢
      exact ⟨rfl, rfl, rfl, named (Or.inl rfl)⟩
    · by_cases wild : first = star
      · subst wild
        simp only [List.head?_cons, Option.some.injEq, star_ne_colon, if_false,
          if_true, List.tail_cons] at compiled
        right; left
        rw [compiled] at named final ⊢
        exact ⟨rfl, rfl, rfl, named (Or.inr rfl), final rfl⟩
      · simp only [List.head?_cons, Option.some.injEq, param, wild, if_false]
          at compiled
        right; right
        rw [compiled]
        exact ⟨rfl, rfl, rfl, by simpa using param, by simpa using wild⟩

/-- The node created for a segment stands for that segment. -/
theorem newSegmentNode_label {seg : Segment} {rest : List Segment}
    (valid : SegmentValid seg rest) :
    (newSegmentNode seg : Node H).label = seg.raw := by
  rcases valid.cases with ⟨param, _, rawEq, _⟩ | ⟨param, wild, rawEq, _⟩ |
    ⟨param, wild, unnamed, _⟩
  · simp [newSegmentNode, Node.label, param, rawEq]
  · simp [newSegmentNode, Node.label, param, wild, rawEq]
  · simp [newSegmentNode, Node.label, param, wild]

theorem newSegmentNode_entry (seg : Segment) :
    (newSegmentNode seg : Node H).entry = none := by
  unfold newSegmentNode Node.entry
  split
  · rfl
  · split <;> rfl

/-- A node whose path and name are those created for a segment is shaped, as
long as a wildcard has no children. -/
theorem childShaped_of_segment {seg : Segment} {rest : List Segment}
    {node : Node H} (valid : SegmentValid seg rest)
    (path : node.path = (newSegmentNode seg : Node H).path)
    (name : node.paramName = (newSegmentNode seg : Node H).paramName)
    (final : rest = [] → node.path = [star] → node.children = []) :
    ChildShaped node := by
  rcases valid.cases with ⟨param, _, _, named⟩ | ⟨param, wild, _, named, restEq⟩ |
    ⟨param, wild, unnamed, notParam, notWild⟩
  · have nameEq : node.paramName = seg.paramName := by
      simpa [newSegmentNode, param] using name
    exact .param (by simpa [newSegmentNode, param] using path)
      (by rw [nameEq]; exact named)
  · have pathEq : node.path = [star] := by
      simpa [newSegmentNode, param, wild] using path
    have nameEq : node.paramName = seg.paramName := by
      simpa [newSegmentNode, param, wild] using name
    exact .wild pathEq (by rw [nameEq]; exact named) (final restEq pathEq)
  · have pathEq : node.path = seg.raw := by
      simpa [newSegmentNode, param, wild] using path
    have nameEq : node.paramName = [] := by
      simpa [newSegmentNode, param, wild] using name
    exact .static (pathEq ▸ valid.nonempty) (pathEq ▸ notParam) (pathEq ▸ notWild)
      nameEq

/-! ## The walk as a graft -/

theorem ChildShaped.head_colon {child : Node H} (shaped : ChildShaped child) :
    child.path.head? = some colon ↔ child.path = [colon] := by
  cases shaped with
  | param path named => simp [path]
  | wild path named final => simp [path, star_ne_colon]
  | static nonempty notParam notWild unnamed =>
    refine ⟨fun head => absurd head notParam, ?_⟩
    intro path
    simp [path]

theorem ChildShaped.head_star {child : Node H} (shaped : ChildShaped child) :
    child.path.head? = some star ↔ child.path = [star] := by
  cases shaped with
  | param path named => simp [path, star_ne_colon.symm]
  | wild path named final => simp [path]
  | static nonempty notParam notWild unnamed =>
    refine ⟨fun head => absurd head notWild, ?_⟩
    intro path
    simp [path]

/-- Tests that agree on the elements of a list find the same position. -/
theorem findIdx?_congr_mem {α : Type} {first second : α → Bool} {items : List α}
    (agree : ∀ item ∈ items, first item = second item) :
    items.findIdx? first = items.findIdx? second := by
  induction items with
  | nil => rfl
  | cons head tail ih =>
    rw [List.findIdx?_cons, List.findIdx?_cons, agree head List.mem_cons_self,
      ih fun item member =>
        agree item (List.mem_cons_of_mem head member)]

section Lookups

variable {node : Node H} (aligned : NodeAligned node)
  (shaped : ∀ child ∈ node.children, ChildShaped child)

include aligned in
theorem findStaticChild_eq (path : Bytes) :
    findStaticChild node path = node.children.find? (·.path == path) := by
  rw [findStaticChild, findStaticIndex_eq aligned, List.find?_eq_bind_findIdx?_getElem?]

include aligned shaped

theorem findIndexByByte_colon :
    findIndexByByte node colon = node.children.findIdx? (·.path == [colon]) := by
  rw [findIndexByByte_eq aligned]
  apply findIdx?_congr_mem
  intro child member
  rw [Bool.eq_iff_iff]
  simpa using (shaped child member).head_colon

theorem findIndexByByte_star :
    findIndexByByte node star = node.children.findIdx? (·.path == [star]) := by
  rw [findIndexByByte_eq aligned]
  apply findIdx?_congr_mem
  intro child member
  rw [Bool.eq_iff_iff]
  simpa using (shaped child member).head_star

theorem findSegmentIndex_key {seg : Segment} {rest : List Segment}
    (valid : SegmentValid seg rest) :
    findSegmentIndex node seg =
      node.children.findIdx? (·.path == segmentKey seg.raw) := by
  rcases valid.cases with ⟨param, _, rawEq, _⟩ | ⟨param, wild, rawEq, _⟩ |
    ⟨param, wild, unnamed, notParam, notWild⟩
  · simp [findSegmentIndex, param, rawEq, segmentKey,
      findIndexByByte_colon aligned shaped]
  · simp [findSegmentIndex, param, wild, rawEq, segmentKey, star_ne_colon,
      findIndexByByte_star aligned shaped]
  · simp [findSegmentIndex, param, wild, segmentKey, notParam, notWild,
      findStaticIndex_eq aligned]

end Lookups

/-- Entering the child of a valid segment changes nothing: the child already
stands for exactly that segment. -/
theorem enterChild_shaped {seg : Segment} {rest : List Segment}
    {child entered : Node H} (valid : SegmentValid seg rest)
    (shaped : ChildShaped child) (key : child.path = segmentKey seg.raw)
    (entry : enterChild seg child = some entered) :
    entered = child ∧ child.label = seg.raw := by
  rcases valid.cases with ⟨param, _, rawEq, _⟩ | ⟨param, wild, rawEq, _⟩ |
    ⟨param, wild, unnamed, notParam, notWild⟩
  · have path : child.path = [colon] := by simpa [segmentKey, rawEq] using key
    cases shaped with
    | param _ named =>
      simp only [enterChild, param, true_or, if_true, named, if_false] at entry
      split at entry
      · cases entry
      · rename_i sameName
        cases entry
        exact ⟨rfl, by simp [Node.label, path, rawEq, not_not.mp sameName]⟩
    | wild starPath => simp [path, star_ne_colon.symm] at starPath
    | static _ notParam => simp [path] at notParam
  · have path : child.path = [star] := by
      simpa [segmentKey, rawEq, star_ne_colon] using key
    cases shaped with
    | param colonPath => simp [path, star_ne_colon] at colonPath
    | wild _ named =>
      simp only [enterChild, wild, or_true, if_true, named, if_false] at entry
      split at entry
      · cases entry
      · rename_i sameName
        cases entry
        exact ⟨rfl, by simp [Node.label, path, rawEq, not_not.mp sameName]⟩
    | static _ _ notWild => simp [path] at notWild
  · have path : child.path = seg.raw := by
      simpa [segmentKey, notParam, notWild] using key
    simp only [enterChild, param, wild, Bool.false_eq_true, or_self, if_false,
      Option.some.injEq] at entry
    refine ⟨entry.symm, ?_⟩
    cases shaped with
    | param colonPath => exact absurd (by simp [← path, colonPath]) notParam
    | wild starPath => exact absurd (by simp [← path, starPath]) notWild
    | static _ _ _ unnamedChild => simp [Node.label, path, unnamedChild]

/-- What a successful walk does to the tree it starts from. -/
structure Registered (current : Node H) (segs : List Segment)
    (payload : Payload H) (tree : Node H) : Prop where
  path : tree.path = current.path
  paramName : tree.paramName = current.paramName
  final : segs = [] → tree.children = current.children
  shaped : Shaped tree
  grafted : (trieView H).Grafted current (segs.map (·.raw)) payload tree

/-- A fresh leaf takes every pattern. -/
theorem insertRoute_leaf (method : Bytes) (payload : Payload H) :
    ∀ (segs : List Segment) (current : Node H),
      (∀ seg ∈ segs, seg.raw ≠ []) → current.children = [] →
      current.indices = [] → current.handler = none →
      ∃ tree, insertRoute method payload current segs = .ret tree none
  | [], current, _, _, _, noHandler => by
      simp [insertRoute, finalizeNode, noHandler]
  | seg :: rest, current, nonempty, leaf, noIndices, noHandler => by
      obtain ⟨first, tail, newPath, _⟩ :=
        newSegmentNode_path (H := H) (nonempty seg List.mem_cons_self)
      obtain ⟨newLeaf, newIndices⟩ := newSegmentNode_leaf (H := H) seg
      have noEntry : (newSegmentNode seg : Node H).handler = none := by
        simpa [Node.entry] using newSegmentNode_entry (H := H) seg
      obtain ⟨branch, branchEq⟩ := insertRoute_leaf method payload rest
        (newSegmentNode seg)
        (List.forall_mem_of_forall_mem_cons nonempty)
        newLeaf newIndices noEntry
      rw [insertRoute_insert (.leaf noIndices leaf) (findSegmentIndex_leaf leaf seg)
        newPath, branchEq]
      exact ⟨_, rfl⟩

/-- A node that keeps a shaped child's path and name is shaped, as long as a
wildcard stays without children. -/
theorem ChildShaped.transfer {child branch : Node H} (shaped : ChildShaped child)
    (path : branch.path = child.path) (name : branch.paramName = child.paramName)
    (final : child.path = [star] → branch.children = child.children) :
    ChildShaped branch := by
  cases shaped with
  | param childPath named => exact .param (path.trans childPath) (name ▸ named)
  | wild childPath named leaf =>
    exact .wild (path.trans childPath) (name ▸ named)
      ((final childPath).trans leaf)
  | static nonempty notParam notWild unnamed =>
    exact .static (path ▸ nonempty) (path ▸ notParam) (path ▸ notWild)
      (name.trans unnamed)

theorem Shaped.setChild {parent branch : Node H} {index : Nat}
    (shaped : Shaped parent) (branchChild : ChildShaped branch)
    (branchShaped : Shaped branch) : Shaped (parent.setChild index branch) := by
  obtain ⟨here, below⟩ := shaped_iff.mp shaped
  refine shaped_iff.mpr ⟨?_, ?_⟩
  · intro child member
    rcases List.mem_or_eq_of_mem_set member with old | rfl
    · exact here child old
    · exact branchChild
  · intro child member
    rcases List.mem_or_eq_of_mem_set member with old | rfl
    · exact below child old
    · exact branchShaped

theorem setChild_self {parent child : Node H} {index : Nat}
    (childEq : parent.children[index]? = some child) :
    parent.setChild index child = parent := by
  obtain ⟨bound, getEq⟩ := List.getElem?_eq_some_iff.mp childEq
  unfold Node.setChild
  rw [← getEq, List.set_getElem_self]
  cases parent
  rfl

/-- The children after an insertion whose new child was then replaced. -/
theorem grownParent_setChild {parent child branch : Node H} {first : UInt8}
    (aligned : NodeAligned parent) :
    ((grownParent parent child first).setChild
        (insertPosition parent.indices first) branch).children =
      parent.children.take (insertPosition parent.indices first) ++
        branch :: parent.children.drop (insertPosition parent.indices first) := by
  have bound := insertPosition_le parent.indices first
  rw [aligned.length] at bound
  have length : (parent.children.take (insertPosition parent.indices first)).length =
      insertPosition parent.indices first := by
    rw [List.length_take]
    omega
  simp only [Node.setChild, grownParent]
  rw [List.set_append_right _ _ (le_of_eq length), length]
  simp

/-- The two endings of a walk over a shaped trie: an error that leaves the tree
as it was, or the pattern grafted onto it. -/
theorem insertRoute_registered (method : Bytes) (payload : Payload H) :
    ∀ (segs : List Segment) (current : Node H),
      SegmentsValid segs → WellIndexed current → Shaped current →
      (∃ failure, insertRoute method payload current segs =
          .ret current (some failure)) ∨
        ∃ tree, insertRoute method payload current segs = .ret tree none ∧
          Registered current segs payload tree
  | [], current, _, _, shaped => by
      simp only [insertRoute, finalizeNode]
      split
      · exact Or.inl ⟨_, rfl⟩
      · refine Or.inr ⟨_, rfl, rfl, rfl, fun _ => rfl, ?_, ?_⟩
        · exact shaped.of_children rfl
        · exact TreeView.grafted_root rfl rfl
  | seg :: rest, current, ⟨valid, restValid⟩, indexed, shaped => by
      obtain ⟨aligned, below⟩ := wellIndexed_iff.mp indexed
      obtain ⟨childShaped, belowShaped⟩ := shaped_iff.mp shaped
      have distinct := labels_nodup aligned childShaped
      have keyEq := findSegmentIndex_key aligned childShaped valid
      cases foundEq : findSegmentIndex current seg with
      | some index =>
        rw [foundEq] at keyEq
        obtain ⟨bound, hit, _⟩ := List.findIdx?_eq_some_iff_getElem.mp keyEq.symm
        have childEq := List.getElem?_eq_getElem bound
        have member := List.getElem_mem bound
        cases entryEq : enterChild seg current.children[index] with
        | none =>
          obtain ⟨failure, equation⟩ :=
            insertRoute_conflict foundEq childEq entryEq
          exact Or.inl ⟨failure, equation⟩
        | some entered =>
          obtain ⟨rfl, labelEq⟩ := enterChild_shaped valid
            (childShaped _ member) (by simpa using hit) entryEq
          rw [insertRoute_enter foundEq childEq entryEq]
          rcases insertRoute_registered method payload rest _ restValid
            (below _ member) (belowShaped _ member) with
            ⟨failure, equation⟩ | ⟨branch, equation, registered⟩
          · refine Or.inl ⟨failure, ?_⟩
            rw [equation, Outcome.map, setChild_self childEq]
          · have branchLabel : branch.label = seg.raw := by
              rw [← labelEq, Node.label, Node.label, registered.path,
                registered.paramName]
            have branchChild : ChildShaped branch := by
              refine (childShaped _ member).transfer registered.path
                registered.paramName ?_
              intro starPath
              -- a wildcard is the last segment, so nothing is added below it
              rcases valid.cases with ⟨_, _, rawEq, _⟩ | ⟨_, _, _, _, restEq⟩ |
                ⟨_, _, _, _, notWild⟩
              · simp [Node.label, starPath, rawEq, star_ne_colon] at labelEq
              · exact registered.final restEq
              · exact absurd (by rw [← labelEq]; simp [Node.label, starPath])
                  notWild
            have replaced : (trieView H).Replaces current
                (current.setChild index branch) branch :=
              TreeView.replaces_set distinct childEq
                (branchLabel.trans labelEq.symm) rfl
            refine Or.inr ⟨current.setChild index branch,
              by rw [equation]; rfl, rfl, rfl, by simp, ?_, ?_⟩
            · exact shaped.setChild branchChild registered.shaped
            · rw [List.map_cons, ← branchLabel]
              refine registered.grafted.enter ?_ replaced rfl
              have found := TreeView.child_of_mem distinct member
              change (trieView H).child current branch.label = _
              rw [branchLabel, ← labelEq]
              exact found
      | none =>
        rw [foundEq] at keyEq
        obtain ⟨first, tail, newPath, _⟩ :=
          newSegmentNode_path (H := H) valid.nonempty
        obtain ⟨newLeaf, newIndices⟩ := newSegmentNode_leaf (H := H) seg
        have noEntry := newSegmentNode_entry (H := H) seg
        rw [insertRoute_insert aligned foundEq newPath]
        rcases insertRoute_registered method payload rest (newSegmentNode seg)
          restValid (wellIndexed_newSegmentNode seg) (shaped_leaf newLeaf) with
          ⟨failure, equation⟩ | ⟨branch, equation, registered⟩
        · have noHandler : (newSegmentNode seg : Node H).handler = none := by
            simpa [Node.entry] using noEntry
          obtain ⟨tree, success⟩ := insertRoute_leaf method payload rest
            (newSegmentNode seg) (segmentsValid_raw restValid) newLeaf newIndices
            noHandler
          rw [success] at equation
          cases equation
        · have branchLabel : branch.label = seg.raw := by
            rw [← newSegmentNode_label (H := H) valid, Node.label, Node.label,
              registered.path, registered.paramName]
          have branchChild : ChildShaped branch :=
            childShaped_of_segment valid registered.path registered.paramName
              fun restEq _ => (registered.final restEq).trans newLeaf
          have fresh : ∀ other ∈ current.children, other.label ≠ branch.label := by
            intro other member sameLabel
            have absent := List.findIdx?_eq_none_iff.mp keyEq.symm other member
            rw [← branchLabel, ← sameLabel, (childShaped other member).key] at absent
            simp at absent
          have grownChildren : ((grownParent current (newSegmentNode seg)
              first).setChild (insertPosition current.indices first) branch).children =
              _ := grownParent_setChild aligned
          have replaced : (trieView H).Replaces current
              ((grownParent current (newSegmentNode seg) first).setChild
                (insertPosition current.indices first) branch) branch :=
            TreeView.replaces_insert fresh
              (List.take_append_drop _ current.children).symm grownChildren
          have missing : (trieView H).child current branch.label = none := by
            apply List.find?_eq_none.mpr
            intro other member
            exact fun hit => fresh other member (of_decide_eq_true hit)
          refine Or.inr ⟨(grownParent current (newSegmentNode seg) first).setChild
            (insertPosition current.indices first) branch, by rw [equation]; rfl,
            rfl, rfl, by simp, ?_, ?_⟩
          · refine shaped_iff.mpr ⟨?_, ?_⟩
            · intro child member
              rw [grownChildren] at member
              rcases List.mem_append.mp member with early | late
              · exact childShaped child (List.mem_of_mem_take early)
              · rcases List.mem_cons.mp late with rfl | late
                · exact branchChild
                · exact childShaped child (List.mem_of_mem_drop late)
            · intro child member
              rw [grownChildren] at member
              rcases List.mem_append.mp member with early | late
              · exact belowShaped child (List.mem_of_mem_take early)
              · rcases List.mem_cons.mp late with rfl | late
                · exact registered.shaped
                · exact belowShaped child (List.mem_of_mem_drop late)
          · rw [List.map_cons, ← branchLabel]
            exact registered.grafted.insert newLeaf noEntry missing replaced rfl

/-! ## Registration calls and runs -/

/-- The raw segments of a stored pattern. -/
def patternParts (path : Bytes) : List Bytes :=
  (compilePathSegments path).map (·.raw)

theorem compilePathSegments_compiled {path : Bytes} {seg : Segment}
    (member : seg ∈ compilePathSegments path) : seg = compileSegment seg.raw := by
  unfold compilePathSegments at member
  split at member
  · simp at member
  · obtain ⟨part, _, rfl⟩ := List.mem_map.mp member
    rw [compileSegment_raw]

theorem patternParts_compile (path : Bytes) :
    (patternParts path).map compileSegment = compilePathSegments path := by
  rw [patternParts, List.map_map]
  conv_rhs => rw [← List.map_id (compilePathSegments path)]
  exact List.map_congr_left fun seg member =>
    (compilePathSegments_compiled member).symm

/-- The raw segments of a canonical pattern are the parts a request for it would
be split into. -/
theorem patternParts_body {body : Bytes} (trimmed : TrimmedBody body) :
    patternParts (slash :: body) = splitPathToParts (slash :: body) := by
  rw [splitPathToParts_body trimmed, patternParts]
  by_cases empty : body = []
  · simp [empty, compilePathSegments]
  · rw [compilePathSegments_body trimmed empty, if_neg empty, List.map_map]
    conv_rhs => rw [← List.map_id (split slash body)]
    exact List.map_congr_left fun part _ => compileSegment_raw part

/-- A canonical pattern: one slash followed by a trimmed body. -/
def Canonical (path : Bytes) : Prop :=
  ∃ body, TrimmedBody body ∧ path = slash :: body

/-- Joining the raw segments of a canonical pattern spells the pattern. -/
theorem Canonical.join_patternParts {path : Bytes} (canonical : Canonical path) :
    slash :: join slash (patternParts path) = path := by
  obtain ⟨body, trimmed, rfl⟩ := canonical
  rw [patternParts_body trimmed, join_splitPathToParts trimmed]

/-- Segments that pass the validation loop are valid. -/
theorem validateSegmentsFrom_valid {path : Bytes} {segs : List Segment}
    (compiled : ∀ seg ∈ segs, seg = compileSegment seg.raw) :
    ∀ {seenParams : List Bytes},
      validateSegmentsFrom path seenParams segs = none → SegmentsValid segs := by
  induction segs with
  | nil => exact fun _ => trivial
  | cons seg rest ih =>
    intro seenParams passed
    obtain ⟨checked, seen, tail⟩ := validateSegmentsFrom_cons passed
    obtain ⟨nonempty, paramNamed, wildNamed⟩ := segmentError_none checked
    refine ⟨⟨compiled seg List.mem_cons_self, nonempty, ?_, ?_⟩, ?_⟩
    · rintro (param | wild)
      · exact paramNamed param
      · exact (wildNamed wild).1
    · intro wild
      exact List.isEmpty_iff.mp (wildNamed wild).2
    · exact ih
        (List.forall_mem_of_forall_mem_cons compiled) tail

/-- The pattern of a call is ASCII text. -/
def RouteCall.asciiPattern (call : RouteCall H) : Prop :=
  ∀ byte ∈ call.full, byte < 0x80

/-- A part of a split text holds only bytes of the text. -/
theorem mem_of_mem_split {separator byte : UInt8} {text part : Bytes}
    (partMember : part ∈ split separator text) (byteMember : byte ∈ part) :
    byte ∈ text := by
  rw [← join_split separator text]
  generalize split separator text = parts at partMember
  induction parts with
  | nil => simp at partMember
  | cons first rest ih =>
    cases rest with
    | nil =>
      have partEq : part = first := by simpa using partMember
      rw [join_singleton, ← partEq]
      exact byteMember
    | cons second more =>
      rw [join_cons_cons, List.mem_append, List.mem_cons]
      rcases List.mem_cons.mp partMember with rfl | inTail
      · exact Or.inl byteMember
      · exact Or.inr (Or.inr (ih inTail))

/-- The segments of an ASCII pattern are stored under ASCII index bytes. -/
theorem RouteCall.asciiPattern.narrow {call : RouteCall H}
    (plain : call.asciiPattern) : ∀ seg ∈ call.segments, seg.startsWide = false := by
  intro seg member
  obtain ⟨body, trimmed, equation⟩ := fullPath_shape call.pre call.path
  have fullEq : call.full = slash :: body := equation
  unfold RouteCall.segments at member
  rw [fullEq] at member
  by_cases empty : body = []
  · simp [empty, compilePathSegments] at member
  · rw [compilePathSegments_body trimmed empty] at member
    obtain ⟨part, partMember, rfl⟩ := List.mem_map.mp member
    unfold Segment.startsWide
    rw [compileSegment_raw]
    cases part with
    | nil => simp
    | cons first tail =>
      have inBody := mem_of_mem_split partMember List.mem_cons_self
      have bound : first < 0x80 := by
        apply plain
        rw [fullEq]
        exact List.mem_cons_of_mem slash inBody
      simp [bound]

theorem insertsWide_of_narrow {segs : List Segment}
    (narrow : ∀ seg ∈ segs, seg.startsWide = false) (current : Node H) :
    insertsWide current segs = false := by
  induction segs generalizing current with
  | nil => rfl
  | cons seg rest ih =>
    have restNarrow := List.forall_mem_of_forall_mem_cons narrow
    unfold insertsWide
    split
    · rw [List.any_eq_false]
      intro other member
      simp [narrow other member]
    · split
      · rfl
      · exact ih restNarrow _

/-- The routes recorded for a method. -/
def RouterState.registered (state : RouterState H) (method : Bytes) : List Route :=
  (state.routes.lookup method).getD []

/-- The tree of a method holds exactly its recorded patterns: a node for every
prefix of a pattern, and at the end of each pattern the data it was registered
with. -/
structure RouteTable (tree : Node H) (registered : List Route) : Prop where
  indexed : WellIndexed tree
  shaped : Shaped tree
  canonical : ∀ route ∈ registered, Canonical route.path
  has : ∀ trail, (trieView H).Has tree trail ↔
    trail = [] ∨ ∃ route ∈ registered, trail <+: patternParts route.path
  routed : ∀ trail, ((trieView H).valueAt tree trail).isSome = true ↔
    ∃ route ∈ registered, patternParts route.path = trail
  payload : ∀ trail payload, (trieView H).valueAt tree trail = some payload →
    payload.fullPath = slash :: join slash trail ∧
      payload.paramKeys = segmentParamKeys (trail.map compileSegment)

theorem routeTable_empty : RouteTable ({} : Node H) [] where
  indexed := wellIndexed_empty
  shaped := shaped_leaf rfl
  canonical := by simp
  has := by
    intro trail
    cases trail with
    | nil => simp [TreeView.has_nil]
    | cons label rest => simp [TreeView.has_cons, TreeView.child, trieView]
  routed := by
    intro trail
    cases trail with
    | nil => simp [TreeView.valueAt_nil, trieView, Node.entry]
    | cons label rest => simp [TreeView.valueAt_cons, TreeView.child, trieView]
  payload := by
    intro trail payload stored
    cases trail with
    | nil => simp [TreeView.valueAt_nil, trieView, Node.entry] at stored
    | cons label rest => simp [TreeView.valueAt_cons, TreeView.child, trieView] at stored

/-- A successful walk adds its route to the table. -/
theorem RouteTable.register {root tree : Node H} {registered : List Route}
    {route : Route} {payload : Payload H} (table : RouteTable root registered)
    (indexed : WellIndexed tree)
    (added : Registered root (compilePathSegments route.path) payload tree)
    (canonical : Canonical route.path)
    (pathEq : payload.fullPath = route.path)
    (keysEq : payload.paramKeys = segmentParamKeys (compilePathSegments route.path)) :
    RouteTable tree (registered ++ [route]) where
  indexed := indexed
  shaped := added.shaped
  canonical := by
    intro other member
    rcases List.mem_append.mp member with old | new
    · exact table.canonical other old
    · rw [List.mem_singleton.mp new]
      exact canonical
  has := by
    intro trail
    rw [added.grafted.has trail, table.has trail]
    change (_ ∨ trail <+: patternParts route.path) ↔ _
    simp only [List.mem_append, List.mem_singleton]
    constructor
    · rintro ((empty | ⟨other, member, covered⟩) | covered)
      · exact Or.inl empty
      · exact Or.inr ⟨other, Or.inl member, covered⟩
      · exact Or.inr ⟨route, Or.inr rfl, covered⟩
    · rintro (empty | ⟨other, member | rfl, covered⟩)
      · exact Or.inl (Or.inl empty)
      · exact Or.inl (Or.inr ⟨other, member, covered⟩)
      · exact Or.inr covered
  routed := by
    intro trail
    rw [added.grafted.valueAt trail]
    change Option.isSome (if trail = patternParts route.path then _ else _) = true ↔ _
    simp only [List.mem_append, List.mem_singleton]
    by_cases here : trail = patternParts route.path
    · rw [if_pos here]
      exact iff_of_true rfl ⟨route, Or.inr rfl, here.symm⟩
    · rw [if_neg here, table.routed trail]
      constructor
      · rintro ⟨other, member, trailEq⟩
        exact ⟨other, Or.inl member, trailEq⟩
      · rintro ⟨other, member | rfl, trailEq⟩
        · exact ⟨other, member, trailEq⟩
        · exact absurd trailEq.symm here
  payload := by
    intro trail stored storedEq
    rw [added.grafted.valueAt trail] at storedEq
    change (if trail = patternParts route.path then _ else _) = _ at storedEq
    by_cases here : trail = patternParts route.path
    · rw [if_pos here, Option.some.injEq] at storedEq
      subst here storedEq
      exact ⟨pathEq.trans canonical.join_patternParts.symm, by rw [patternParts_compile, keysEq]⟩
    · rw [if_neg here] at storedEq
      exact table.payload trail stored storedEq

/-- Every method tree holds exactly the routes recorded for its method. -/
def StateTabled (state : RouterState H) : Prop :=
  ∀ method, RouteTable (state.treeOrNew method) (state.registered method)

theorem stateTabled_new (capacity : Int) :
    StateTabled (newRouterState H capacity) := by
  intro method
  simpa [newRouterState, RouterState.treeOrNew, RouterState.registered] using
    routeTable_empty

theorem treeOrNew_setTree (state : RouterState H) (method other : Bytes)
    (tree : Node H) :
    (state.setTree method tree).treeOrNew other =
      if other = method then tree else state.treeOrNew other := by
  unfold RouterState.treeOrNew RouterState.setTree
  by_cases same : other = method
  · subst same
    simp
  · simp [same, AList.lookup_insert_ne same]

theorem treeOrNew_setTree_self (state : RouterState H) (method other : Bytes) :
    (state.setTree method (state.treeOrNew method)).treeOrNew other =
      state.treeOrNew other := by
  rw [treeOrNew_setTree]
  by_cases same : other = method
  · simp [same]
  · simp [same]

theorem StateTabled.setTree_self {state : RouterState H} (tabled : StateTabled state)
    (method : Bytes) :
    StateTabled (state.setTree method (state.treeOrNew method)) := by
  intro other
  rw [treeOrNew_setTree_self]
  exact tabled other

/-- Recording a route appends it to the list of its method. -/
theorem registered_recordRoute (state : RouterState H) (method full other : Bytes)
    (info : RouteMeta) :
    (recordRoute state method full info).registered other =
      if other = method then
        state.registered method ++ [{ method := method, path := full, info := info }]
      else state.registered other := by
  have routesEq : (recordRoute state method full info).routes =
      state.routes.insert method (state.registered method ++
        [{ method := method, path := full, info := info }]) := by
    unfold recordRoute
    split <;> rfl
  unfold RouterState.registered at routesEq ⊢
  rw [routesEq]
  by_cases same : other = method
  · subst same
    simp
  · simp [same, AList.lookup_insert_ne same]

/-- Every call with an ASCII pattern returns and keeps the trees in step with
the recorded routes. -/
theorem addRoute_tabled {state : RouterState H} {call : RouteCall H}
    (tabled : StateTabled state) (plain : call.asciiPattern) :
    ∃ after failure, addRoute state call = .ret after failure ∧
      StateTabled after := by
  unfold addRoute
  cases checkEq : checkCall state call with
  | error failure => exact ⟨state, some failure, rfl, tabled⟩
  | ok handler =>
    have started := tabled.setTree_self call.method
    have table := tabled call.method
    cases validEq : validateRouteSegments call.full call.segments with
    | some cause => exact ⟨_, _, rfl, started⟩
    | none =>
      have valid : SegmentsValid call.segments :=
        validateSegmentsFrom_valid
          (fun _ member => compilePathSegments_compiled member) validEq
      have narrow := insertsWide_of_narrow plain.narrow
        (state.treeOrNew call.method)
      obtain ⟨walked, walkedFailure, walkEq, _, walkedIndexed⟩ :=
        insertRoute_wellIndexed call.method (call.payload handler)
          call.segments (state.treeOrNew call.method)
          (segmentsValid_raw valid) table.indexed narrow
      rcases insertRoute_registered call.method (call.payload handler)
        call.segments (state.treeOrNew call.method) valid table.indexed
        table.shaped with ⟨failure, equation⟩ | ⟨tree, equation, added⟩
      · simp only [equation]
        refine ⟨_, _, rfl, ?_⟩
        intro other
        rw [treeOrNew_setTree]
        by_cases same : other = call.method
        · rw [if_pos same, same]
          exact table
        · rw [if_neg same]
          exact started other
      · rw [equation, Outcome.ret.injEq] at walkEq
        simp only [equation]
        refine ⟨_, _, rfl, ?_⟩
        intro other
        have treeEq : (recordRoute ((state.setTree call.method
            (state.treeOrNew call.method)).setTree call.method tree) call.method
            call.full call.info).treeOrNew other =
            if other = call.method then tree else state.treeOrNew other := by
          rw [RouterState.treeOrNew, recordRoute_trees, ← RouterState.treeOrNew,
            treeOrNew_setTree, treeOrNew_setTree_self]
        rw [treeEq, registered_recordRoute]
        by_cases same : other = call.method
        · rw [if_pos same, if_pos same]
          exact table.register (walkEq.1 ▸ walkedIndexed) added
            (fullPath_shape call.pre call.path) rfl rfl
        · rw [if_neg same, if_neg same]
          exact tabled other

/-- After every run of calls with ASCII patterns each method tree holds exactly
the routes recorded for it. -/
theorem addRoutes_tabled {calls : List (RouteCall H)} :
    ∀ {state : RouterState H}, StateTabled state →
      (∀ call ∈ calls, call.asciiPattern) →
      ∃ after, addRoutes state calls = some after ∧ StateTabled after := by
  induction calls with
  | nil => exact fun tabled _ => ⟨_, rfl, tabled⟩
  | cons call calls ih =>
    intro state tabled plain
    obtain ⟨next, failure, callEq, nextTabled⟩ :=
      addRoute_tabled tabled (plain call List.mem_cons_self)
    obtain ⟨after, afterEq, afterTabled⟩ := ih nextTabled
      (List.forall_mem_of_forall_mem_cons plain)
    refine ⟨after, ?_, afterTabled⟩
    simp only [addRoutes, callEq, afterEq]

end Plumego.Router
