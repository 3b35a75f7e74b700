/-
Module: Plumego.Proofs.RouterMatching
Purpose: What the greedy walk of `matchNode` finds in a table of patterns: the
  values it collects fill the matched pattern to the request path unless the
  walk slips into a reserved child, and it finds a route exactly when some
  registered pattern matches and is not shadowed on the way.
Trusted boundary: none
Main exports: matchTrail, matchLoop_trail, matchNode_sound_iff, Matches, matchNode_complete_iff
-/
import Plumego.Proofs.RouterTable
import Plumego.Router.Matcher

namespace Plumego.Router

open Go
open Lib (TreeView)

variable {H : Type}

/-! ## Child lookups as membership -/

section Lookups

variable {node child : Node H} {path label : Bytes}

theorem find?_path_iff (aligned : NodeAligned node) :
    node.children.find? (·.path == path) = some child ↔
      child ∈ node.children ∧ child.path = path := by
  constructor
  · intro found
    exact ⟨List.mem_of_find?_eq_some found, by simpa using List.find?_some found⟩
  · rintro ⟨member, rfl⟩
    cases found : node.children.find? (·.path == child.path) with
    | none => simpa using List.find?_eq_none.mp found child member
    | some other =>
      have samePath : other.path = child.path := by
        simpa using List.find?_some found
      rw [List.inj_on_of_nodup_map aligned.distinct
        (List.mem_of_find?_eq_some found) member samePath]

theorem findStaticChild_iff (aligned : NodeAligned node) :
    findStaticChild node path = some child ↔
      child ∈ node.children ∧ child.path = path := by
  rw [findStaticChild_eq aligned, find?_path_iff aligned]

theorem findParamChild_iff (aligned : NodeAligned node)
    (shaped : ∀ child ∈ node.children, ChildShaped child) :
    findParamChild node = some child ↔
      child ∈ node.children ∧ child.path = [colon] := by
  rw [findParamChild, findChildByByte, findIndexByByte_colon aligned shaped,
    ← List.find?_eq_bind_findIdx?_getElem?, find?_path_iff aligned]

theorem findWildChild_iff (aligned : NodeAligned node)
    (shaped : ∀ child ∈ node.children, ChildShaped child) :
    findWildChild node = some child ↔
      child ∈ node.children ∧ child.path = [star] := by
  rw [findWildChild, findChildByByte, findIndexByByte_star aligned shaped,
    ← List.find?_eq_bind_findIdx?_getElem?, find?_path_iff aligned]

theorem child_iff (aligned : NodeAligned node)
    (shaped : ∀ child ∈ node.children, ChildShaped child) :
    (trieView H).child node label = some child ↔
      child ∈ node.children ∧ child.label = label := by
  constructor
  · exact TreeView.child_mem
  · rintro ⟨member, rfl⟩
    exact TreeView.child_of_mem (labels_nodup aligned shaped) member

end Lookups

/-- A segment that starts with neither reserved byte. -/
def isStatic (part : Bytes) : Prop :=
  part.head? ≠ some colon ∧ part.head? ≠ some star

/-- A segment that spells a reserved child path. -/
def isReserved (part : Bytes) : Bool :=
  part == [colon] || part == [star]

/-- A child found under a segment that is not a reserved path is static and
stands for that segment. -/
theorem ChildShaped.label_of_path {child : Node H} (shaped : ChildShaped child)
    (free : isReserved child.path = false) :
    isStatic child.path ∧ child.label = child.path := by
  cases shaped with
  | param path named | wild path named final => simp [path, isReserved] at free
  | static nonempty notParam notWild unnamed =>
    exact ⟨⟨notParam, notWild⟩, by simp [Node.label, unnamed]⟩

theorem ChildShaped.label_of_static {child : Node H} (shaped : ChildShaped child)
    (static : isStatic child.path) : child.label = child.path := by
  cases shaped with
  | param path named | wild path named final => simp [isStatic, path] at static
  | static nonempty notParam notWild unnamed => simp [Node.label, unnamed]

theorem ChildShaped.kind {child : Node H} (shaped : ChildShaped child) :
    child.path = [colon] ∨ child.path = [star] ∨ isStatic child.path := by
  cases shaped with
  | param path named => exact Or.inl path
  | wild path named final => exact Or.inr (Or.inl path)
  | static nonempty notParam notWild unnamed =>
    exact Or.inr (Or.inr ⟨notParam, notWild⟩)

/-- A child that stands for a static segment has that segment as its path. -/
theorem ChildShaped.path_of_label {child : Node H} (shaped : ChildShaped child)
    (static : isStatic child.label) : child.path = child.label := by
  rw [← shaped.key, segmentKey, if_neg static.1, if_neg static.2]

/-! ## The trail of a match -/

/-- The trail of a match: the pattern segments of the nodes entered, the values
collected, whether a static lookup entered a reserved child, and the last
node. -/
structure Trail (H : Type) where
  labels : List Bytes
  values : List Bytes
  slipped : Bool
  final : Node H

/-- The walk of `matchNode` with the pattern segments it passes. -/
def matchTrail : Node H → List Bytes → Option (Trail H)
  | current, [] =>
    some { labels := [], values := [], slipped := false, final := current }
  | current, part :: rest =>
    if part = [] then none
    else
      match findStaticChild current part with
      | some child =>
        (matchTrail child rest).map fun trail =>
          { trail with
            labels := child.label :: trail.labels
            slipped := isReserved part || trail.slipped }
      | none =>
        match findParamChild current with
        | some child =>
          (matchTrail child rest).map fun trail =>
            { trail with
              labels := child.label :: trail.labels
              values := part :: trail.values }
        | none =>
          (findWildChild current).map fun child =>
            { labels := [child.label]
              values := [join slash (part :: rest)]
              slipped := false
              final := child }

theorem segmentOffset_cons (first : Bytes) (rest : List Bytes) (index : Nat) :
    segmentOffset (first :: rest) (index + 1) =
      first.length + 1 + segmentOffset rest index := by
  have shift : ∀ (items : List Bytes) (start extra : Nat),
      items.foldl (fun off part => off + (part.length + 1)) (start + extra) =
        extra + items.foldl (fun off part => off + (part.length + 1)) start := by
    intro items
    induction items with
    | nil => intro start extra; simp [Nat.add_comm]
    | cons item items ih =>
      intro start extra
      simp only [List.foldl_cons]
      rw [show start + extra + (item.length + 1) =
        start + (item.length + 1) + extra by omega, ih]
  simp only [segmentOffset, List.take_succ_cons, List.foldl_cons]
  rw [shift]

/-- The byte offset of a part leads to the join of the parts from there on. -/
theorem drop_segmentOffset (done : List Bytes) {rest : List Bytes}
    (nonempty : rest ≠ []) :
    (slash :: join slash (done ++ rest)).drop
        (segmentOffset (done ++ rest) done.length) = join slash rest := by
  induction done with
  | nil => simp [segmentOffset]
  | cons first done ih =>
    obtain ⟨second, more, moreEq⟩ : ∃ second more, done ++ rest = second :: more := by
      cases joined : done ++ rest with
      | nil => simp [nonempty] at joined
      | cons second more => exact ⟨second, more, rfl⟩
    rw [List.cons_append, List.length_cons, segmentOffset_cons, moreEq,
      join_cons_cons, ← moreEq, ← ih]
    have cut : ∀ (text : Bytes) (offset : Nat),
        (slash :: (first ++ text)).drop (first.length + 1 + offset) =
          text.drop offset := by
      intro text offset
      rw [show first.length + 1 + offset = (first.length + offset) + 1 by omega,
        List.drop_succ_cons, List.drop_append]
      simp
    exact cut _ _

/-- The loop of `matchNode` computes the trail; the wildcard slice is the join
of the remaining parts. -/
theorem matchLoop_trail {rawPath : Bytes} {parts : List Bytes}
    (raw : rawPath = slash :: join slash parts) :
    ∀ (rest done : List Bytes) (current : Node H) (values : List Bytes),
      parts = done ++ rest →
      matchLoop parts rawPath done.length current values rest =
        (matchTrail current rest).map fun trail =>
          (trail.final, values ++ trail.values) := by
  intro rest
  induction rest with
  | nil =>
    intro done current values _
    simp [matchLoop, matchTrail]
  | cons part rest ih =>
    intro done current values partsEq
    have advanced : parts = (done ++ [part]) ++ rest := by simp [partsEq]
    have step := ih (done ++ [part])
    rw [List.length_append, List.length_singleton] at step
    by_cases empty : part = []
    · simp [matchLoop, matchTrail, empty]
    · simp only [matchLoop, matchTrail, if_neg empty]
      cases findStaticChild current part with
      | some child =>
        simp only [step child values advanced, Option.map_map]
        rfl
      | none =>
        cases findParamChild current with
        | some child =>
          simp only [step child _ advanced, Option.map_map]
          congr 1
          funext trail
          simp
        | none =>
          cases findWildChild current with
          | some child =>
            have slice := drop_segmentOffset done
              (List.cons_ne_nil part rest)
            rw [← partsEq, ← raw] at slice
            simp [slice]
          | none => rfl

/-! ## Soundness of a match -/

/-- Substitute values, in order, for the parameter and wildcard segments. -/
def fillSegments : List Bytes → List Bytes → List Bytes
  | [], _ => []
  | label :: labels, values =>
    if label.head? = some colon ∨ label.head? = some star then
      values.headD [] :: fillSegments labels values.tail
    else label :: fillSegments labels values

/-- A pattern with its values filled in. -/
def fillPattern (pattern : Bytes) (values : List Bytes) : Bytes :=
  slash :: join slash (fillSegments (splitPathToParts pattern) values)

/-- Segment by segment: a static segment is the request's, a parameter's value
is the request segment at its position, and a wildcard's value is the join of
all remaining segments. -/
def Instantiates : List Bytes → List Bytes → List Bytes → Prop
  | [], values, parts => values = [] ∧ parts = []
  | _ :: _, _, [] => False
  | label :: labels, values, part :: parts =>
    if label.head? = some colon then
      ∃ rest, values = part :: rest ∧ Instantiates labels rest parts
    else if label.head? = some star then
      labels = [] ∧ values = [join slash (part :: parts)]
    else label = part ∧ Instantiates labels values parts

/-- Filling an instantiated pattern gives the request's segments back. -/
theorem Instantiates.fill {labels : List Bytes} :
    ∀ {values parts : List Bytes}, Instantiates labels values parts →
      join slash (fillSegments labels values) = join slash parts ∧
        (fillSegments labels values = [] ↔ parts = []) := by
  induction labels with
  | nil =>
    rintro values parts ⟨_, rfl⟩
    simp [fillSegments]
  | cons label labels ih =>
    intro values parts instantiated
    cases parts with
    | nil => exact instantiated.elim
    | cons part parts =>
      -- joining under a common first segment
      have extend : ∀ {filled : List Bytes},
          join slash filled = join slash parts ∧ (filled = [] ↔ parts = []) →
          join slash (part :: filled) = join slash (part :: parts) := by
        intro filled agree
        cases filled with
        | nil => simp [agree.2.mp rfl]
        | cons first more =>
          cases parts with
          | nil => exact absurd (agree.2.mpr rfl) (List.cons_ne_nil first more)
          | cons second others =>
            rw [join_cons_cons, join_cons_cons, agree.1]
      unfold Instantiates at instantiated
      unfold fillSegments
      by_cases param : label.head? = some colon
      · rw [if_pos param] at instantiated
        obtain ⟨rest, rfl, below⟩ := instantiated
        rw [if_pos (Or.inl param)]
        exact ⟨extend (ih below), by simp⟩
      · rw [if_neg param] at instantiated
        by_cases wild : label.head? = some star
        · rw [if_pos wild] at instantiated
          obtain ⟨rfl, rfl⟩ := instantiated
          rw [if_pos (Or.inr wild)]
          simp [fillSegments]
        · rw [if_neg wild] at instantiated
          obtain ⟨rfl, below⟩ := instantiated
          rw [if_neg (by simp [param, wild])]
          exact ⟨extend (ih below), by simp⟩

/-- The number of parameter and wildcard segments of a pattern. -/
def paramCount (labels : List Bytes) : Nat :=
  (segmentParamKeys (labels.map compileSegment)).length

theorem paramCount_cons (label : Bytes) (labels : List Bytes) :
    paramCount (label :: labels) =
      (if label.head? = some colon ∨ label.head? = some star then 1 else 0) +
        paramCount labels := by
  simp only [paramCount, segmentParamKeys, List.map_cons, List.length_map]
  by_cases param : label.head? = some colon
  · simp [compileSegment, param, Nat.add_comm]
  · by_cases wild : label.head? = some star
    · simp [compileSegment, wild, star_ne_colon, Nat.add_comm]
    · simp [compileSegment, param, wild]

/-- What the trail of a match has in common with the trie and the request. -/
structure TrailSound (node : Node H) (parts : List Bytes) (trail : Trail H) :
    Prop where
  follow : (trieView H).follow node trail.labels = some trail.final
  instantiates : trail.slipped = false →
    Instantiates trail.labels trail.values parts
  count : trail.slipped = false → trail.values.length = paramCount trail.labels
  short : trail.slipped = true → trail.values.length < paramCount trail.labels
  bounded : trail.values.length ≤ paramCount trail.labels

/-- Every trail is sound. Each case is one branch of the walk. -/
theorem matchTrail_sound {parts : List Bytes} :
    ∀ {node : Node H} {trail : Trail H}, WellIndexed node → Shaped node →
      matchTrail node parts = some trail → TrailSound node parts trail := by
  induction parts with
  | nil =>
    intro node trail _ _ matched
    simp only [matchTrail, Option.some.injEq] at matched
    subst matched
    exact ⟨rfl, fun _ => ⟨rfl, rfl⟩, fun _ => rfl, by simp, Nat.le_refl 0⟩
  | cons part rest ih =>
    intro node trail indexed shaped matched
    obtain ⟨aligned, below⟩ := wellIndexed_iff.mp indexed
    obtain ⟨childShaped, belowShaped⟩ := shaped_iff.mp shaped
    have followChild : ∀ {child : Node H} {labels : List Bytes} {final : Node H},
        child ∈ node.children → (trieView H).follow child labels = some final →
        (trieView H).follow node (child.label :: labels) = some final := by
      intro child labels final member followEq
      rw [TreeView.follow_cons, (child_iff aligned childShaped).mpr ⟨member, rfl⟩]
      exact followEq
    by_cases empty : part = []
    · simp [matchTrail, empty] at matched
    · simp only [matchTrail, if_neg empty] at matched
      cases staticEq : findStaticChild node part with
      | some child =>
        obtain ⟨member, pathEq⟩ := (findStaticChild_iff aligned).mp staticEq
        simp only [staticEq, Option.map_eq_some_iff] at matched
        obtain ⟨inner, innerEq, rfl⟩ := matched
        have sound := ih (below child member)
          (belowShaped child member) innerEq
        cases reservedEq : isReserved part with
        | true =>
          -- the segment spells a reserved path: no value is collected
          have counted : paramCount (child.label :: inner.labels) =
              1 + paramCount inner.labels := by
            rw [paramCount_cons, if_pos]
            rcases (Bool.or_eq_true _ _).mp reservedEq with isColon | isStar
            · have path : child.path = [colon] := by simpa [pathEq] using isColon
              exact Or.inl (by simp [Node.label, path])
            · have path : child.path = [star] := by simpa [pathEq] using isStar
              exact Or.inr (by simp [Node.label, path])
          have bound := sound.bounded
          refine ⟨followChild member sound.follow, by simp, by simp, ?_, ?_⟩
          · intro _
            simp only [counted]
            omega
          · simp only [counted]
            omega
        | false =>
          have free : isReserved child.path = false := by rw [pathEq]; exact reservedEq
          obtain ⟨static, labelEq⟩ :=
            (childShaped child member).label_of_path free
          rw [pathEq] at static labelEq
          have counted : paramCount (child.label :: inner.labels) =
              paramCount inner.labels := by
            rw [paramCount_cons, labelEq, if_neg, Nat.zero_add]
            exact not_or.mpr ⟨static.1, static.2⟩
          refine ⟨followChild member sound.follow, ?_, ?_, ?_, ?_⟩
          · intro straight
            simp only [Bool.false_or] at straight
            simp only [labelEq, Instantiates, if_neg static.1, if_neg static.2]
            exact ⟨trivial, sound.instantiates straight⟩
          · intro straight
            simp only [Bool.false_or] at straight
            simp only [counted]
            exact sound.count straight
          · intro slip
            simp only [Bool.false_or] at slip
            simp only [counted]
            exact sound.short slip
          · simp only [counted]
            exact sound.bounded
      | none =>
        simp only [staticEq] at matched
        cases paramEq : findParamChild node with
        | some child =>
          obtain ⟨member, pathEq⟩ :=
            (findParamChild_iff aligned childShaped).mp paramEq
          simp only [paramEq, Option.map_eq_some_iff] at matched
          obtain ⟨inner, innerEq, rfl⟩ := matched
          have sound := ih (below child member)
            (belowShaped child member) innerEq
          have head : child.label.head? = some colon := by
            simp [Node.label, pathEq]
          have counted : paramCount (child.label :: inner.labels) =
              1 + paramCount inner.labels := by
            rw [paramCount_cons, if_pos (Or.inl head)]
          refine ⟨followChild member sound.follow, ?_, ?_, ?_, ?_⟩
          · intro straight
            simp only [Instantiates, if_pos head]
            exact ⟨inner.values, rfl, sound.instantiates straight⟩
          · intro straight
            have same := sound.count straight
            simp only [counted, List.length_cons]
            omega
          · intro slip
            have fewer := sound.short slip
            simp only [counted, List.length_cons]
            omega
          · have bound := sound.bounded
            simp only [counted, List.length_cons]
            omega
        | none =>
          simp only [paramEq, Option.map_eq_some_iff] at matched
          obtain ⟨child, wildEq, rfl⟩ := matched
          obtain ⟨member, pathEq⟩ :=
            (findWildChild_iff aligned childShaped).mp wildEq
          have head : child.label.head? = some star := by
            simp [Node.label, pathEq]
          have notParam : child.label.head? ≠ some colon := by
            simp [head, star_ne_colon]
          have counted : paramCount [child.label] = 1 := by
            rw [paramCount_cons, if_pos (Or.inr head)]
            rfl
          refine ⟨followChild member rfl, ?_, ?_, by simp, ?_⟩
          · intro _
            simp only [Instantiates, if_neg notParam, if_pos head]
            exact ⟨trivial, trivial⟩
          · intro _
            simp [counted]
          · simp [counted]

/-- The walk of the request ends at a route, and on the way a static lookup
entered a reserved child, because a request segment spells `:` or `*`. -/
def slipsToRoute : Bool → Node H → List Bytes → Bool
  | slipped, current, [] => slipped && current.handler.isSome
  | slipped, current, part :: rest =>
    if part = [] then false
    else
      match findStaticChild current part with
      | some child => slipsToRoute (slipped || isReserved part) child rest
      | none =>
        match findParamChild current with
        | some child => slipsToRoute slipped child rest
        | none =>
          (findWildChild current).elim false fun child =>
            slipped && child.handler.isSome

theorem slipsToRoute_trail (parts : List Bytes) :
    ∀ (slipped : Bool) (node : Node H),
      slipsToRoute slipped node parts =
        (matchTrail node parts).elim false fun trail =>
          (slipped || trail.slipped) && trail.final.handler.isSome := by
  induction parts with
  | nil =>
    intro slipped node
    simp [slipsToRoute, matchTrail]
  | cons part rest ih =>
    intro slipped node
    by_cases empty : part = []
    · simp [slipsToRoute, matchTrail, empty]
    · simp only [slipsToRoute, matchTrail, if_neg empty]
      cases findStaticChild node part with
      | some child =>
        simp only [ih]
        cases matchTrail child rest with
        | none => rfl
        | some trail => simp [Bool.or_assoc]
      | none =>
        cases findParamChild node with
        | some child =>
          simp only [ih]
          cases matchTrail child rest with
          | none => rfl
          | some trail => rfl
        | none =>
          cases findWildChild node with
          | none => rfl
          | some child => simp

/-- `matchNode` on a normalised path reads its result off the trail. -/
theorem matchNode_trail {tree : Node H} {body : Bytes} (trimmed : TrimmedBody body) :
    matchNode tree (splitPathToParts (slash :: body)) (slash :: body) =
      (matchTrail tree (splitPathToParts (slash :: body))).bind fun trail =>
        trail.final.handler.map fun handler =>
          { handler := handler
            paramValues := trail.values
            paramKeys := trail.final.paramKeys
            routePattern := trail.final.fullPath
            routeName := trail.final.routeName } := by
  have raw : slash :: body =
      slash :: join slash (splitPathToParts (slash :: body)) := by
    rw [join_splitPathToParts trimmed]
  have loop := matchLoop_trail raw (splitPathToParts (slash :: body)) [] tree [] rfl
  rw [List.length_nil] at loop
  rw [matchNode, loop]
  cases matchTrail tree (splitPathToParts (slash :: body)) with
  | none => rfl
  | some trail => rfl

/-- Soundness of a match: as many values as keys, and the values fill the
pattern to the normalised request path, segment by segment. -/
def MatchSound (tree : Node H) (path : Bytes) : Prop :=
  ∀ result, matchNode tree (splitPathToParts (fastNormalizePath path))
      (fastNormalizePath path) = some result →
    result.paramValues.length = result.paramKeys.length ∧
      fillPattern result.routePattern result.paramValues = fastNormalizePath path ∧
      Instantiates (splitPathToParts result.routePattern) result.paramValues
        (splitPathToParts (fastNormalizePath path))

/-- The parts of a stored pattern, recovered from its text. -/
theorem RouteTable.parts_of_payload {tree : Node H} {registered : List Route}
    (table : RouteTable tree registered) {trail : List Bytes} {payload : Payload H}
    (storedEq : (trieView H).valueAt tree trail = some payload) :
    splitPathToParts payload.fullPath = trail := by
  obtain ⟨route, member, partsEq⟩ := (table.routed trail).mp (by rw [storedEq]; rfl)
  obtain ⟨body, trimmed, bodyEq⟩ := table.canonical route member
  rw [(table.payload trail payload storedEq).1, ← partsEq,
    (table.canonical route member).join_patternParts, bodyEq,
    patternParts_body trimmed]

/-- In a table the match of a request is sound exactly if its walk does not
slip to a route. -/
theorem RouteTable.matchSound_iff {tree : Node H} {registered : List Route}
    (table : RouteTable tree registered) {path : Bytes}
    (absolute : path.head? = some slash) :
    MatchSound tree path ↔
      slipsToRoute false tree (splitPathToParts (fastNormalizePath path)) = false := by
  obtain ⟨body, trimmed, normalEq⟩ := fastNormalizePath_shape absolute
  rw [MatchSound, normalEq, matchNode_trail trimmed, slipsToRoute_trail]
  cases trailEq : matchTrail tree (splitPathToParts (slash :: body)) with
  | none => simp
  | some trail =>
    have sound := matchTrail_sound table.indexed table.shaped trailEq
    cases handlerEq : trail.final.handler with
    | none => simp [handlerEq]
    | some handler =>
      have stored : (trieView H).valueAt tree trail.labels =
          some { handler := handler
                 paramKeys := trail.final.paramKeys
                 fullPath := trail.final.fullPath
                 routeName := trail.final.routeName } := by
        rw [TreeView.valueAt, sound.follow, Option.bind_some]
        simp [trieView, Node.entry, handlerEq]
      have keys : trail.final.paramKeys.length = paramCount trail.labels :=
        congrArg List.length (table.payload _ _ stored).2
      have partsEq : splitPathToParts trail.final.fullPath = trail.labels :=
        table.parts_of_payload stored
      simp only [Option.bind_some, handlerEq, Option.map_some, Option.some.injEq,
        forall_eq', Option.elim_some, Bool.false_or, Option.isSome_some,
        Bool.and_true, keys, partsEq, fillPattern]
      cases slipEq : trail.slipped with
      | true =>
        -- a slip leaves fewer values than keys
        have fewer := sound.short slipEq
        simp only [Bool.true_eq_false, iff_false, not_and]
        omega
      | false =>
        have instantiated := sound.instantiates slipEq
        simp only [iff_true]
        refine ⟨sound.count slipEq, ?_, instantiated⟩
        rw [instantiated.fill.1, join_splitPathToParts trimmed]

/-- The table of a method after a run of registrations. -/
theorem routeTable_of_run {capacity : Int} {calls : List (RouteCall H)}
    {state : RouterState H} {method : Bytes} {tree : Node H}
    (plain : ∀ call ∈ calls, call.asciiPattern)
    (reached : addRoutes (newRouterState H capacity) calls = some state)
    (treeEq : state.trees.lookup method = some tree) :
    RouteTable tree (state.registered method) := by
  obtain ⟨after, afterEq, tabled⟩ := addRoutes_tabled (stateTabled_new capacity) plain
  rw [reached, Option.some.injEq] at afterEq
  subst afterEq
  have table := tabled method
  rwa [RouterState.treeOrNew, treeEq] at table

/-- In every router built by registrations of ASCII patterns, the match of an
absolute request path is sound exactly if the walk down the tree does not enter
a reserved child by a static lookup on the way to a route. -/
theorem matchNode_sound_iff {capacity : Int} {calls : List (RouteCall H)}
    {state : RouterState H} {method : Bytes} {tree : Node H} {path : Bytes}
    (plain : ∀ call ∈ calls, call.asciiPattern)
    (reached : addRoutes (newRouterState H capacity) calls = some state)
    (treeEq : state.trees.lookup method = some tree)
    (absolute : path.head? = some slash) :
    MatchSound tree path ↔
      slipsToRoute false tree (splitPathToParts (fastNormalizePath path)) = false :=
  (routeTable_of_run plain reached treeEq).matchSound_iff absolute

/-- One registration of a parameter pattern. -/
def paramCalls : List (RouteCall Unit) :=
  [{ method := ascii "GET", path := ascii "/users/:id", handler := some () }]

/-- The router after `paramCalls`. -/
def paramState : RouterState Unit :=
  (addRoutes (newRouterState Unit 100) paramCalls).getD (newRouterState Unit 100)

/-- Its tree for GET. -/
def paramTree : Node Unit := paramState.treeOrNew (ascii "GET")

theorem paramCalls_reached :
    addRoutes (newRouterState Unit 100) paramCalls = some paramState := rfl

theorem paramCalls_tree :
    paramState.trees.lookup (ascii "GET") = some paramTree := rfl

theorem paramCalls_ascii : ∀ call ∈ paramCalls, call.asciiPattern := by
  intro call member
  rw [paramCalls, List.mem_singleton] at member
  subst member
  unfold RouteCall.asciiPattern
  decide +kernel

/-- A request for `/users/7` meets the condition, so its match is sound. -/
theorem matchNode_sound_users : MatchSound paramTree (ascii "/users/7") :=
  (matchNode_sound_iff paramCalls_ascii paramCalls_reached paramCalls_tree
    (by decide)).mpr (by decide)

/-- A request for `/users/:` enters the parameter child by the static lookup
and is dispatched with one key and no value. -/
theorem matchNode_slip_users :
    addRoutes (newRouterState Unit 100) paramCalls = some paramState ∧
      paramState.trees.lookup (ascii "GET") = some paramTree ∧
      ¬ MatchSound paramTree (ascii "/users/:") := by
  refine ⟨paramCalls_reached, paramCalls_tree, ?_⟩
  rw [(routeTable_of_run paramCalls_ascii paramCalls_reached
    paramCalls_tree).matchSound_iff (by decide)]
  decide

/-! ## Completeness of a match -/

/-- A pattern matches a request segment by segment: a static segment equal, a
parameter any non-empty segment, a wildcard the non-empty remainder. -/
def Matches : List Bytes → List Bytes → Prop
  | [], parts => parts = []
  | _ :: _, [] => False
  | label :: labels, part :: parts =>
    if label.head? = some colon then part ≠ [] ∧ Matches labels parts
    else if label.head? = some star then
      labels = [] ∧ join slash (part :: parts) ≠ []
    else label = part ∧ Matches labels parts

instance decidableMatches : ∀ labels parts, Decidable (Matches labels parts)
  | [], parts => inferInstanceAs (Decidable (parts = []))
  | _ :: _, [] => inferInstanceAs (Decidable False)
  | label :: labels, part :: parts => by
    have := decidableMatches labels parts
    dsimp only [Matches]
    infer_instance

/-- A pattern is not shadowed by the tree it is stored in, which `continues`
along some segment sequences: at a parameter no static segment equal to the
request's continues it, at a wildcard neither that nor any parameter. -/
def Unshadowed (continues : List Bytes → Prop) : List Bytes → List Bytes → Prop
  | label :: labels, part :: parts =>
    if label.head? = some colon then
      ¬ (isStatic part ∧ continues [part]) ∧
        Unshadowed (fun trail => continues (label :: trail)) labels parts
    else if label.head? = some star then
      ¬ (isStatic part ∧ continues [part]) ∧
        ∀ name, ¬ continues [colon :: name]
    else Unshadowed (fun trail => continues (label :: trail)) labels parts
  | _, _ => True

theorem join_ne_nil {part : Bytes} (rest : List Bytes) (nonempty : part ≠ []) :
    join slash (part :: rest) ≠ [] := by
  cases rest with
  | nil => simpa using nonempty
  | cons second more => simp [join_cons_cons]

section Steps

variable {node : Node H} (aligned : NodeAligned node)
  (shaped : ∀ child ∈ node.children, ChildShaped child)

include aligned in
theorem child_unique {first second : Node H} (firstMember : first ∈ node.children)
    (secondMember : second ∈ node.children) (samePath : first.path = second.path) :
    first = second :=
  List.inj_on_of_nodup_map aligned.distinct firstMember secondMember samePath

include aligned shaped

theorem has_singleton_iff {label : Bytes} :
    (trieView H).Has node [label] ↔ ∃ child ∈ node.children, child.label = label := by
  rw [TreeView.has_singleton]
  constructor
  · rintro ⟨child, found⟩
    exact ⟨child, TreeView.child_mem found⟩
  · rintro ⟨child, member, labelEq⟩
    exact ⟨child, (child_iff aligned shaped).mpr ⟨member, labelEq⟩⟩

theorem has_child {child : Node H} (member : child ∈ node.children) :
    (fun trail => (trieView H).Has node (child.label :: trail)) =
      (trieView H).Has child := by
  funext trail
  rw [eq_iff_iff, TreeView.has_cons, (child_iff aligned shaped).mpr ⟨member, rfl⟩]
  simp

/-- A pattern that matches a request with a first segment starts at some
child. -/
theorem exists_pattern_cons {part : Bytes} {rest : List Bytes} :
    (∃ pattern, ((trieView H).valueAt node pattern).isSome = true ∧
        Matches pattern (part :: rest) ∧
        Unshadowed ((trieView H).Has node) pattern (part :: rest)) ↔
      ∃ child ∈ node.children, ∃ labels,
        ((trieView H).valueAt child labels).isSome = true ∧
        Matches (child.label :: labels) (part :: rest) ∧
        Unshadowed ((trieView H).Has node) (child.label :: labels) (part :: rest) := by
  constructor
  · rintro ⟨pattern, stored, matched, clear⟩
    cases pattern with
    | nil => simp [Matches] at matched
    | cons label labels =>
      rw [TreeView.valueAt_cons] at stored
      cases childEq : (trieView H).child node label with
      | none => simp [childEq] at stored
      | some child =>
        obtain ⟨member, labelEq⟩ := (child_iff aligned shaped).mp childEq
        subst labelEq
        exact ⟨child, member, labels, by simpa [childEq] using stored, matched, clear⟩
  · rintro ⟨child, member, labels, stored, matched, clear⟩
    refine ⟨child.label :: labels, ?_, matched, clear⟩
    rw [TreeView.valueAt_cons, (child_iff aligned shaped).mpr ⟨member, rfl⟩]
    exact stored

variable {part : Bytes} {rest labels : List Bytes}

/-- A static segment equal to the request's continues from this node. -/
def staticContinues (node : Node H) (part : Bytes) : Prop :=
  isStatic part ∧ (trieView H).Has node [part]

theorem staticContinues_iff :
    staticContinues node part ↔ isStatic part ∧ ∃ child ∈ node.children,
      child.path = part := by
  rw [staticContinues, has_singleton_iff aligned shaped]
  constructor
  · rintro ⟨static, child, member, rfl⟩
    exact ⟨static, child, member, (shaped child member).path_of_label static⟩
  · rintro ⟨static, child, member, rfl⟩
    exact ⟨static, child, member, (shaped child member).label_of_static static⟩

/-- Some child of the node is a parameter. -/
theorem paramContinues_iff :
    (∃ name, (trieView H).Has node [colon :: name]) ↔
      ∃ child ∈ node.children, child.path = [colon] := by
  constructor
  · rintro ⟨name, continues⟩
    obtain ⟨child, member, labelEq⟩ := (has_singleton_iff aligned shaped).mp continues
    refine ⟨child, member, ?_⟩
    rw [← (shaped child member).key, labelEq]
    rfl
  · rintro ⟨child, member, path⟩
    refine ⟨child.paramName, (has_singleton_iff aligned shaped).mpr
      ⟨child, member, ?_⟩⟩
    simp [Node.label, path]

/-- Matching through a parameter child. -/
theorem leads_param {child : Node H} (member : child ∈ node.children)
    (path : child.path = [colon]) :
    (Matches (child.label :: labels) (part :: rest) ∧
        Unshadowed ((trieView H).Has node) (child.label :: labels) (part :: rest)) ↔
      (part ≠ [] ∧ ¬ staticContinues node part) ∧ Matches labels rest ∧
        Unshadowed ((trieView H).Has child) labels rest := by
  have head : child.label.head? = some colon := by simp [Node.label, path]
  simp only [Matches, Unshadowed, if_pos head, has_child aligned shaped member]
  unfold staticContinues
  tauto

/-- Matching through a wildcard child. -/
theorem leads_wild {child : Node H} (path : child.path = [star]) :
    (Matches (child.label :: labels) (part :: rest) ∧
        Unshadowed ((trieView H).Has node) (child.label :: labels) (part :: rest)) ↔
      (labels = [] ∧ join slash (part :: rest) ≠ []) ∧ ¬ staticContinues node part ∧
        ¬ ∃ child ∈ node.children, child.path = [colon] := by
  have head : child.label.head? = some star := by simp [Node.label, path]
  have notParam : child.label.head? ≠ some colon := by simp [head, star_ne_colon]
  rw [← paramContinues_iff aligned shaped]
  simp only [Matches, Unshadowed, if_neg notParam, if_pos head, not_exists]
  rfl

/-- Matching through a static child. -/
theorem leads_static {child : Node H} (member : child ∈ node.children)
    (static : isStatic child.path) :
    (Matches (child.label :: labels) (part :: rest) ∧
        Unshadowed ((trieView H).Has node) (child.label :: labels) (part :: rest)) ↔
      child.path = part ∧ Matches labels rest ∧
        Unshadowed ((trieView H).Has child) labels rest := by
  have labelEq := (shaped child member).label_of_static static
  have notParam : child.label.head? ≠ some colon := labelEq ▸ static.1
  have notWild : child.label.head? ≠ some star := labelEq ▸ static.2
  simp only [Matches, Unshadowed, if_neg notParam, if_neg notWild,
    has_child aligned shaped member]
  rw [labelEq, and_assoc]

/-- Some pattern stored below the node through `child` matches the request and
is not shadowed. -/
def leadsOn (child : Node H) (rest : List Bytes) : Prop :=
  ∃ labels, ((trieView H).valueAt child labels).isSome = true ∧
    Matches labels rest ∧ Unshadowed ((trieView H).Has child) labels rest

/-- Unless a static segment continues, every match goes through the parameter
child of a node that has one. -/
theorem patterns_through_param {child : Node H} (member : child ∈ node.children)
    (isColon : child.path = [colon]) (nonempty : part ≠ [])
    (unblocked : ¬ staticContinues node part) :
    leadsOn node (part :: rest) ↔ leadsOn child rest := by
  unfold leadsOn
  rw [exists_pattern_cons aligned shaped]
  constructor
  · rintro ⟨other, otherMember, labels, stored, leads⟩
    rcases (shaped other otherMember).kind with otherColon | otherStar | static
    · rw [child_unique aligned otherMember member
        (otherColon.trans isColon.symm)] at stored leads
      exact ⟨labels, stored, ((leads_param aligned shaped member isColon).mp leads).2⟩
    · exact absurd ⟨child, member, isColon⟩
        ((leads_wild aligned shaped otherStar).mp leads).2.2
    · have same := ((leads_static aligned shaped otherMember static).mp leads).1
      exact absurd ((staticContinues_iff aligned shaped).mpr
        ⟨same ▸ static, other, otherMember, same⟩) unblocked
  · rintro ⟨labels, stored, leads⟩
    exact ⟨child, member, labels, stored,
      (leads_param aligned shaped member isColon).mpr ⟨⟨nonempty, unblocked⟩, leads⟩⟩

/-- Where a static child carries the request's segment, every match goes
through it. -/
theorem patterns_through_static {child : Node H} (member : child ∈ node.children)
    (static : isStatic child.path) (pathEq : child.path = part) :
    leadsOn node (part :: rest) ↔ leadsOn child rest := by
  have blocked : staticContinues node part :=
    (staticContinues_iff aligned shaped).mpr ⟨pathEq ▸ static, child, member, pathEq⟩
  unfold leadsOn
  rw [exists_pattern_cons aligned shaped]
  constructor
  · rintro ⟨other, otherMember, labels, stored, leads⟩
    rcases (shaped other otherMember).kind with otherColon | otherStar | otherStatic
    · exact absurd blocked
        ((leads_param aligned shaped otherMember otherColon).mp leads).1.2
    · exact absurd blocked ((leads_wild aligned shaped otherStar).mp leads).2.1
    · obtain ⟨same, tail⟩ :=
        (leads_static aligned shaped otherMember otherStatic).mp leads
      rw [child_unique aligned otherMember member
        (same.trans pathEq.symm)] at stored tail
      exact ⟨labels, stored, tail⟩
  · rintro ⟨labels, stored, leads⟩
    exact ⟨child, member, labels, stored,
      (leads_static aligned shaped member static).mpr ⟨pathEq, leads⟩⟩

/-- Where neither a static segment nor a parameter continues, a match ends at
the wildcard child. -/
theorem patterns_through_wild (nonempty : part ≠ [])
    (unblocked : ¬ staticContinues node part)
    (noParam : ¬ ∃ child ∈ node.children, child.path = [colon]) :
    leadsOn node (part :: rest) ↔
      ∃ child ∈ node.children, child.path = [star] ∧ child.handler.isSome = true := by
  unfold leadsOn
  rw [exists_pattern_cons aligned shaped]
  constructor
  · rintro ⟨other, otherMember, labels, stored, leads⟩
    rcases (shaped other otherMember).kind with otherColon | otherStar | static
    · exact absurd ⟨other, otherMember, otherColon⟩ noParam
    · obtain ⟨⟨rfl, _⟩, _⟩ := (leads_wild aligned shaped otherStar).mp leads
      exact ⟨other, otherMember, otherStar, by
        simpa [TreeView.valueAt_nil, trieView, Node.entry] using stored⟩
    · have same := ((leads_static aligned shaped otherMember static).mp leads).1
      exact absurd ((staticContinues_iff aligned shaped).mpr
        ⟨same ▸ static, other, otherMember, same⟩) unblocked
  · rintro ⟨child, member, isStar, routed⟩
    refine ⟨child, member, [], ?_, ?_⟩
    · simpa [TreeView.valueAt_nil, trieView, Node.entry] using routed
    · exact (leads_wild aligned shaped isStar).mpr
        ⟨⟨rfl, join_ne_nil rest nonempty⟩, unblocked, noParam⟩

end Steps

/-- The walk ends at a node with a handler. -/
def walkRoutes (node : Node H) (parts : List Bytes) : Prop :=
  ∃ trail, matchTrail node parts = some trail ∧ trail.final.handler.isSome = true

theorem walkRoutes_map {child : Node H} {rest : List Bytes}
    {extend : Trail H → Trail H} (keeps : ∀ trail, (extend trail).final = trail.final) :
    (∃ trail, (matchTrail child rest).map extend = some trail ∧
        trail.final.handler.isSome = true) ↔ walkRoutes child rest := by
  unfold walkRoutes
  cases matchTrail child rest with
  | none => simp
  | some inner => simp [keeps]

/-- The walk ends at a route exactly if some stored pattern matches and is not
shadowed. The cases follow the three lookups of the walk. -/
theorem walkRoutes_iff {parts : List Bytes} :
    ∀ {node : Node H}, WellIndexed node → Shaped node →
      (∀ part ∈ parts, part ≠ []) → [star] ∉ parts →
      (walkRoutes node parts ↔ leadsOn node parts) := by
  induction parts with
  | nil =>
    intro node _ _ _ _
    constructor
    · rintro ⟨trail, matched, routed⟩
      simp only [matchTrail, Option.some.injEq] at matched
      subst matched
      exact ⟨[], by simpa [TreeView.valueAt_nil, trieView, Node.entry] using routed,
        rfl, trivial⟩
    · rintro ⟨pattern, stored, matched, _⟩
      cases pattern with
      | nil =>
        exact ⟨_, rfl, by
          simpa [TreeView.valueAt_nil, trieView, Node.entry] using stored⟩
      | cons label labels => exact matched.elim
  | cons part rest ih =>
    intro node indexed shaped nonempty noStar
    obtain ⟨aligned, below⟩ := wellIndexed_iff.mp indexed
    obtain ⟨childShaped, belowShaped⟩ := shaped_iff.mp shaped
    have partNonempty := nonempty part List.mem_cons_self
    have step : ∀ child ∈ node.children, (walkRoutes child rest ↔ leadsOn child rest) :=
      fun child member =>
        ih (below child member) (belowShaped child member)
          (List.forall_mem_of_forall_mem_cons nonempty)
          fun inRest => noStar (List.mem_cons_of_mem part inRest)
    unfold walkRoutes
    simp only [matchTrail, if_neg partNonempty]
    cases staticEq : findStaticChild node part with
    | some child =>
      obtain ⟨member, pathEq⟩ := (findStaticChild_iff aligned).mp staticEq
      dsimp only
      rw [walkRoutes_map (by intro trail; rfl), step child member]
      rcases (childShaped child member).kind with isColon | isStar | static
      · -- the segment `:` enters the parameter child as well
        have unblocked : ¬ staticContinues node part := by
          rintro ⟨static, _⟩
          simp [isStatic, ← pathEq, isColon] at static
        exact (patterns_through_param aligned childShaped member isColon
          partNonempty unblocked).symm
      · exact absurd (by simp [← isStar, pathEq]) noStar
      · exact (patterns_through_static aligned childShaped member static
          pathEq).symm
    | none =>
      have unblocked : ¬ staticContinues node part := by
        intro continues
        obtain ⟨_, child, member, pathEq⟩ :=
          (staticContinues_iff aligned childShaped).mp continues
        rw [(findStaticChild_iff aligned).mpr ⟨member, pathEq⟩] at staticEq
        cases staticEq
      cases paramEq : findParamChild node with
      | some child =>
        obtain ⟨member, isColon⟩ :=
          (findParamChild_iff aligned childShaped).mp paramEq
        dsimp only
        rw [walkRoutes_map (by intro trail; rfl), step child member]
        exact (patterns_through_param aligned childShaped member isColon
          partNonempty unblocked).symm
      | none =>
        have noParam : ¬ ∃ child ∈ node.children, child.path = [colon] := by
          rintro ⟨child, member, isColon⟩
          rw [(findParamChild_iff aligned childShaped).mpr
            ⟨member, isColon⟩] at paramEq
          cases paramEq
        rw [patterns_through_wild aligned childShaped partNonempty unblocked
          noParam]
        simp only [Option.map_eq_some_iff]
        constructor
        · rintro ⟨_, ⟨child, wildEq, rfl⟩, routed⟩
          obtain ⟨member, isStar⟩ :=
            (findWildChild_iff aligned childShaped).mp wildEq
          exact ⟨child, member, isStar, routed⟩
        · rintro ⟨child, member, isStar, routed⟩
          exact ⟨_, ⟨child, (findWildChild_iff aligned childShaped).mpr
            ⟨member, isStar⟩, rfl⟩, routed⟩

theorem matchNode_isSome {tree : Node H} {body : Bytes} (trimmed : TrimmedBody body) :
    (matchNode tree (splitPathToParts (slash :: body)) (slash :: body)).isSome = true ↔
      walkRoutes tree (splitPathToParts (slash :: body)) := by
  rw [matchNode_trail trimmed, walkRoutes]
  cases matchTrail tree (splitPathToParts (slash :: body)) with
  | none => simp
  | some trail => simp

/-- In every router built by registrations of ASCII patterns, a normalised
request without empty segments and without a segment `*` finds a route exactly
if some registered pattern of the method matches it and is not shadowed by the
registered patterns: the walk prefers static segments to parameters and
parameters to wildcards, and does not come back. -/
theorem matchNode_complete_iff {capacity : Int} {calls : List (RouteCall H)}
    {state : RouterState H} {method : Bytes} {tree : Node H} {path : Bytes}
    (plain : ∀ call ∈ calls, call.asciiPattern)
    (reached : addRoutes (newRouterState H capacity) calls = some state)
    (treeEq : state.trees.lookup method = some tree)
    (absolute : path.head? = some slash)
    (noEmpty : ∀ part ∈ splitPathToParts (fastNormalizePath path), part ≠ [])
    (noStar : [star] ∉ splitPathToParts (fastNormalizePath path)) :
    (matchNode tree (splitPathToParts (fastNormalizePath path))
        (fastNormalizePath path)).isSome = true ↔
      ∃ route ∈ state.registered method,
        Matches (patternParts route.path)
            (splitPathToParts (fastNormalizePath path)) ∧
          Unshadowed (fun trail => ∃ other ∈ state.registered method,
              trail <+: patternParts other.path) (patternParts route.path)
            (splitPathToParts (fastNormalizePath path)) := by
  have table := routeTable_of_run plain reached treeEq
  obtain ⟨body, trimmed, normalEq⟩ := fastNormalizePath_shape absolute
  rw [normalEq] at noEmpty noStar ⊢
  rw [matchNode_isSome trimmed,
    walkRoutes_iff table.indexed table.shaped noEmpty noStar, leadsOn]
  -- once a route is registered, every node lies on a registered pattern
  have continues : ∀ route ∈ state.registered method, (trieView H).Has tree =
      fun trail => ∃ other ∈ state.registered method,
        trail <+: patternParts other.path := by
    intro route member
    funext trail
    rw [eq_iff_iff, table.has trail]
    constructor
    · rintro (rfl | covered)
      · exact ⟨route, member, List.nil_prefix⟩
      · exact covered
    · exact Or.inr
  constructor
  · rintro ⟨pattern, stored, matched, clear⟩
    obtain ⟨route, member, rfl⟩ := (table.routed pattern).mp stored
    rw [continues route member] at clear
    exact ⟨route, member, matched, clear⟩
  · rintro ⟨route, member, matched, clear⟩
    refine ⟨patternParts route.path,
      (table.routed _).mpr ⟨route, member, rfl⟩, matched, ?_⟩
    rw [continues route member]
    exact clear

/-- The pattern `/users/:id` alone answers a request for `/users/7`. -/
theorem matchNode_complete_users :
    (matchNode paramTree (splitPathToParts (fastNormalizePath (ascii "/users/7")))
      (fastNormalizePath (ascii "/users/7"))).isSome = true := by
  refine (matchNode_complete_iff paramCalls_ascii paramCalls_reached paramCalls_tree
    (by decide) (by decide) (by decide)).mpr
    ⟨{ method := ascii "GET", path := ascii "/users/:id", info := {} }, by decide,
      by decide, ?_⟩
  rw [show splitPathToParts (fastNormalizePath (ascii "/users/7")) =
      [ascii "users", ascii "7"] by decide,
    show patternParts (ascii "/users/:id") = [ascii "users", ascii ":id"] by decide,
    Unshadowed, if_neg (by decide), if_neg (by decide), Unshadowed,
    if_pos (by decide)]
  refine ⟨?_, trivial⟩
  rintro ⟨_, other, member, covered⟩
  rw [show paramState.registered (ascii "GET") =
    [{ method := ascii "GET", path := ascii "/users/:id", info := {} }] by decide,
    List.mem_singleton] at member
  subst member
  exact absurd covered (by decide)

/-- A static route beside a longer parameter route. -/
def shadowCalls : List (RouteCall Unit) :=
  [{ method := ascii "GET", path := ascii "/users/new", handler := some () },
    { method := ascii "GET", path := ascii "/users/:id/x", handler := some () }]

/-- The router after `shadowCalls`. -/
def shadowState : RouterState Unit :=
  (addRoutes (newRouterState Unit 100) shadowCalls).getD (newRouterState Unit 100)

/-- The request `/users/new/x` matches the registered pattern `/users/:id/x`, but
the walk has entered the static segment `new` and finds nothing below it. -/
theorem matchNode_shadowed :
    addRoutes (newRouterState Unit 100) shadowCalls = some shadowState ∧
      (∃ route ∈ shadowState.registered (ascii "GET"),
        Matches (patternParts route.path) (splitPathToParts (ascii "/users/new/x"))) ∧
      (matchNode (shadowState.treeOrNew (ascii "GET"))
        (splitPathToParts (ascii "/users/new/x")) (ascii "/users/new/x")).isNone := by
  refine ⟨rfl, ?_, by decide⟩
  exact ⟨{ method := ascii "GET", path := ascii "/users/:id/x", info := {} },
    by decide, by decide⟩

end Plumego.Router
