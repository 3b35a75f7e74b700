/-
Module: Plumego.Proofs.RouterLookup
Purpose: The alignment invariant of one trie node, the correctness of the child
  lookups under it, and its preservation by `insertChild`.
Trusted boundary: none
Main exports: NodeAligned, findStaticIndex_eq, findIndexByByte_eq
-/
import Mathlib.Data.List.Forall2
import Plumego.Router.Matcher

namespace Plumego.Router

open Go

variable {H : Type}

/-- The two parallel sequences of a node agree: one index byte per child, equal
to the first byte of its path, sorted, with pairwise distinct child paths. -/
structure NodeAligned (node : Node H) : Prop where
  length : node.indices.length = node.children.length
  first : ∀ (index : Nat) (child : Node H), node.children[index]? = some child →
    ∃ byte, node.indices[index]? = some byte ∧ child.path.head? = some byte
  sorted : node.indices.Pairwise (· ≤ ·)
  distinct : (node.children.map (·.path)).Nodup

/-- Alignment of the two sequences, element by element. -/
abbrev HeadsAligned (indices : Bytes) (children : List (Node H)) : Prop :=
  List.Forall₂ (fun byte child => child.path.head? = some byte) indices children

/-- The first byte of an aligned child occurs among the indices. -/
theorem HeadsAligned.head_mem {indices : Bytes} {children : List (Node H)}
    (heads : HeadsAligned indices children) {child : Node H}
    (member : child ∈ children) :
    ∃ byte ∈ indices, child.path.head? = some byte := by
  induction heads with
  | nil => simp at member
  | cons headEq heads ih =>
    rcases List.mem_cons.mp member with rfl | inTail
    · exact ⟨_, List.mem_cons_self, headEq⟩
    · obtain ⟨byte, byteMember, byteEq⟩ := ih inTail
      exact ⟨byte, List.mem_cons_of_mem _ byteMember, byteEq⟩

theorem NodeAligned.heads {node : Node H} (aligned : NodeAligned node) :
    HeadsAligned node.indices node.children := by
  rw [HeadsAligned, List.forall₂_iff_get]
  refine ⟨aligned.length, ?_⟩
  intro index indexBound childBound
  obtain ⟨byte, byteEq, headEq⟩ := aligned.first index node.children[index]
    (List.getElem?_eq_getElem childBound)
  rw [List.getElem?_eq_getElem indexBound] at byteEq
  simpa [Option.some.inj byteEq] using headEq

theorem NodeAligned.of_heads {node : Node H}
    (heads : HeadsAligned node.indices node.children)
    (sorted : node.indices.Pairwise (· ≤ ·))
    (distinct : (node.children.map (·.path)).Nodup) : NodeAligned node where
  length := heads.length_eq
  first := by
    intro index child childEq
    obtain ⟨childBound, childGet⟩ := List.getElem?_eq_some_iff.mp childEq
    have indexBound : index < node.indices.length := by
      rw [heads.length_eq]
      exact childBound
    have headEq := (List.forall₂_iff_get.mp heads).2 index indexBound childBound
    refine ⟨node.indices[index], List.getElem?_eq_getElem indexBound, ?_⟩
    simpa [childGet] using headEq
  sorted := sorted
  distinct := distinct

/-- A node without children is aligned. -/
theorem NodeAligned.leaf {node : Node H} (noIndices : node.indices = [])
    (noChildren : node.children = []) : NodeAligned node := by
  apply NodeAligned.of_heads
  · rw [noIndices, noChildren]
    exact List.Forall₂.nil
  · simp [noIndices]
  · simp [noChildren]

/-! ## Lookups -/

/-- On aligned sorted sequences whose bytes are at least `first`, the indexed
run finds what a scan over all paths finds. -/
theorem scanRun_eq {first : UInt8} {rest indices : Bytes}
    {children : List (Node H)} (heads : HeadsAligned indices children)
    (sorted : indices.Pairwise (· ≤ ·)) (above : ∀ byte ∈ indices, first ≤ byte)
    (offset : Nat) :
    scanRun first (first :: rest) offset indices children =
      (children.findIdx? (·.path == first :: rest)).map (· + offset) := by
  induction heads generalizing offset with
  | nil => rfl
  | @cons byte child indices children headEq heads ih =>
    have tailSorted := (List.pairwise_cons.mp sorted).2
    have tailAbove := List.forall_mem_of_forall_mem_cons above
    rw [List.findIdx?_cons]
    by_cases same : byte = first
    · by_cases hit : child.path = first :: rest
      · simp [scanRun, same, hit]
      · simp only [scanRun, same, if_true, if_neg hit,
          ih tailSorted tailAbove, beq_iff_eq, Option.map_map]
        congr 1
        funext index
        simp only [Function.comp]
        omega
    · -- a larger byte ends the run, and no later path can start with `first`
      have missing : ∀ other ∈ child :: children, other.path ≠ first :: rest := by
        intro other member equality
        have larger : ∀ label ∈ byte :: indices, first ≠ label := by
          intro label labelMember
          have lower := above byte List.mem_cons_self
          rcases List.mem_cons.mp labelMember with rfl | inTail
          · exact fun equal => same equal.symm
          · have upper := (List.pairwise_cons.mp sorted).1 label inTail
            grind
        have whole : HeadsAligned (byte :: indices) (child :: children) :=
          .cons headEq heads
        obtain ⟨label, labelMember, labelEq⟩ := whole.head_mem member
        rw [equality] at labelEq
        exact larger label labelMember (Option.some.inj labelEq)
      have absent : ((child :: children).findIdx? (·.path == first :: rest)) = none := by
        rw [List.findIdx?_eq_none_iff]
        intro other member
        simpa using missing other member
      rw [List.findIdx?_cons] at absent
      rw [absent]
      simp [scanRun, same]

/-- The whole indexed lookup agrees with the scan over all paths. -/
theorem indexedLookup_eq (first : UInt8) (rest : Bytes) {indices : Bytes}
    {children : List (Node H)} (heads : HeadsAligned indices children)
    (sorted : indices.Pairwise (· ≤ ·)) (offset : Nat) :
    ((indices.findIdx? (· == first)).bind fun index =>
        scanRun first (first :: rest) (index + offset) (indices.drop index)
          (children.drop index)) =
      (children.findIdx? (·.path == first :: rest)).map (· + offset) := by
  induction heads generalizing offset with
  | nil => rfl
  | @cons byte child indices children headEq heads ih =>
    have tailSorted := (List.pairwise_cons.mp sorted).2
    by_cases same : byte = first
    · have above : ∀ other ∈ byte :: indices, first ≤ other := by
        intro other member
        rcases List.mem_cons.mp member with rfl | inTail
        · exact same ▸ UInt8.le_refl _
        · exact same ▸ (List.pairwise_cons.mp sorted).1 other inTail
      rw [List.findIdx?_cons]
      simp only [same, beq_self_eq_true, if_true, List.drop_zero, Nat.zero_add,
        Option.bind_some]
      rw [same] at headEq sorted above
      exact scanRun_eq (List.Forall₂.cons headEq heads) sorted above offset
    · have skipped : child.path ≠ first :: rest := by
        intro equality
        rw [equality] at headEq
        simp only [List.head?_cons, Option.some.injEq] at headEq
        exact same headEq.symm
      have shifted := ih tailSorted (offset + 1)
      rw [List.findIdx?_cons, List.findIdx?_cons]
      simp only [beq_iff_eq, same, skipped, if_false, Option.map_map]
      cases foundEq : indices.findIdx? (· == first) with
      | none =>
        simp only [foundEq, Option.bind_none] at shifted
        simp only [Option.map_none, Option.bind_none]
        rw [eq_comm, Option.map_eq_none_iff] at shifted ⊢
        exact shifted
      | some index =>
        simp only [foundEq, Option.bind_some] at shifted
        simp only [Option.map_some, Option.bind_some, List.drop_succ_cons]
        rw [show index + 1 + offset = index + (offset + 1) by omega, shifted]
        congr 1
        funext position
        simp only [Function.comp]
        omega

/-- `findStaticChild` finds the child with the given path, on the short scan
and on the indexed run alike. -/
theorem findStaticIndex_eq {node : Node H} (aligned : NodeAligned node)
    (path : Bytes) :
    findStaticIndex node path = node.children.findIdx? (·.path == path) := by
  unfold findStaticIndex
  by_cases empty : node.children = []
  · simp [empty]
  · rw [if_neg empty]
    by_cases few : node.children.length ≤ 2
    · rw [if_pos few]
    · rw [if_neg few]
      cases indicesEq : node.indices with
      | nil => rfl
      | cons byte indices =>
        cases path with
        | nil => rfl
        | cons first rest =>
          have lookup :=
            indexedLookup_eq first rest aligned.heads aligned.sorted 0
          rw [indicesEq] at lookup
          simpa using lookup

theorem HeadsAligned.findIdx?_eq {indices : Bytes} {children : List (Node H)}
    (heads : HeadsAligned indices children) (byte : UInt8) :
    indices.findIdx? (· == byte) =
      children.findIdx? fun child => child.path.head? == some byte := by
  induction heads with
  | nil => rfl
  | cons headEq heads ih =>
    rw [List.findIdx?_cons, List.findIdx?_cons, ih]
    simp [headEq]

/-- The position found by byte is the first child whose path starts with it. -/
theorem findIndexByByte_eq {node : Node H} (aligned : NodeAligned node)
    (byte : UInt8) :
    findIndexByByte node byte =
      node.children.findIdx? fun child => child.path.head? == some byte := by
  have agree := aligned.heads.findIdx?_eq byte
  unfold findIndexByByte
  by_cases empty : node.children = []
  · simp [empty]
  · rw [if_neg empty]
    by_cases noIndices : node.indices = []
    · simp [noIndices]
    · rw [if_pos noIndices, agree]
      cases foundEq : node.children.findIdx? fun child =>
          child.path.head? == some byte with
      | none => rfl
      | some index =>
        have bound := (List.findIdx?_eq_some_iff_findIdx_eq.mp foundEq).1
        simp [bound]

/-! ## Insertion -/

/-- The index text of an inserted child, cut at the insertion position. -/
theorem insertPosition_cut (indices : Bytes) (first : UInt8) :
    indices.take (insertPosition indices first) =
        indices.takeWhile (· ≤ first) ∧
      indices.drop (insertPosition indices first) =
        indices.dropWhile (· ≤ first) := by
  have whole := List.takeWhile_append_dropWhile (p := (· ≤ first)) (l := indices)
  constructor
  · have cut : (indices.takeWhile (· ≤ first) ++ indices.dropWhile (· ≤ first)).take
        (insertPosition indices first) = indices.takeWhile (· ≤ first) :=
      List.take_left
    rwa [whole] at cut
  · have cut : (indices.takeWhile (· ≤ first) ++ indices.dropWhile (· ≤ first)).drop
        (insertPosition indices first) = indices.dropWhile (· ≤ first) :=
      List.drop_left
    rwa [whole] at cut

theorem insertPosition_le (indices : Bytes) (first : UInt8) :
    insertPosition indices first ≤ indices.length :=
  (List.takeWhile_prefix _).length_le

/-- The parent after an insertion at the loop's position. -/
def grownParent (parent child : Node H) (first : UInt8) : Node H :=
  let index := insertPosition parent.indices first
  { parent with
    indices := parent.indices.take index ++ stringOfByte first ++
      parent.indices.drop index
    children := parent.children.take index ++
      child :: parent.children.drop index }

/-- Inversion of a successful `insertChild`. -/
theorem insertChild_some {parent child grown : Node H} {index : Nat}
    (inserted : insertChild parent child = some (grown, index)) :
    ∃ first rest, child.path = first :: rest ∧
      index = insertPosition parent.indices first ∧
      index ≤ parent.children.length ∧
      grown = grownParent parent child first := by
  unfold insertChild at inserted
  cases pathEq : child.path with
  | nil => simp [pathEq] at inserted
  | cons first rest =>
    simp only [pathEq] at inserted
    split at inserted
    · simp at inserted
    · rename_i fits
      simp only [Option.some.injEq, Prod.mk.injEq] at inserted
      obtain ⟨rfl, rfl⟩ := inserted
      exact ⟨first, rest, rfl, rfl, by omega, rfl⟩

/-- On an aligned node the insertion position is within the children, so the
insertion does not panic. -/
theorem insertChild_of_aligned {parent child : Node H} {first : UInt8}
    {rest : Bytes} (aligned : NodeAligned parent)
    (pathEq : child.path = first :: rest) :
    insertChild parent child =
      some (grownParent parent child first,
        insertPosition parent.indices first) := by
  have bound := insertPosition_le parent.indices first
  rw [aligned.length] at bound
  unfold insertChild
  simp only [pathEq]
  rw [if_neg (by omega)]
  rfl

/-- Inserting a byte at the loop's position keeps the indices sorted. -/
theorem insertPosition_sorted {indices : Bytes} (first : UInt8)
    (sorted : indices.Pairwise (· ≤ ·)) :
    (indices.take (insertPosition indices first) ++ [first] ++
      indices.drop (insertPosition indices first)).Pairwise (· ≤ ·) := by
  have below : ∀ byte ∈ indices.take (insertPosition indices first),
      byte ≤ first := by
    intro byte member
    rw [(insertPosition_cut indices first).1] at member
    simpa using List.mem_takeWhile_imp member
  have above : ∀ byte ∈ indices.drop (insertPosition indices first),
      first ≤ byte := by
    intro byte member
    have dropped := sorted.sublist
      (List.drop_sublist (insertPosition indices first) indices)
    rw [(insertPosition_cut indices first).2] at member dropped
    cases tailEq : indices.dropWhile (· ≤ first) with
    | nil => simp [tailEq] at member
    | cons next tail =>
      have stop : ¬ next ≤ first := by
        have headStop := List.head?_dropWhile_not (· ≤ first) indices
        simpa [tailEq] using headStop
      rw [tailEq] at member dropped
      rcases List.mem_cons.mp member with rfl | inTail
      · grind
      · have order := (List.pairwise_cons.mp dropped).1 byte inTail
        grind
  rw [List.append_assoc, List.pairwise_append]
  refine ⟨sorted.sublist (List.take_sublist _ _), ?_, ?_⟩
  · rw [List.singleton_append, List.pairwise_cons]
    exact ⟨above, sorted.sublist (List.drop_sublist _ _)⟩
  · intro left leftMember right rightMember
    have leftBound := below left leftMember
    rcases List.mem_append.mp rightMember with isFirst | inTail
    · simp only [List.mem_singleton] at isFirst
      exact isFirst ▸ leftBound
    · have rightBound := above right inTail
      grind

/-- Inserting a child whose path starts with an ASCII byte and is new to the
node keeps the node aligned. -/
theorem grownParent_aligned {parent child : Node H} {first : UInt8}
    {rest : Bytes} (aligned : NodeAligned parent)
    (pathEq : child.path = first :: rest) (narrow : first < 0x80)
    (fresh : ∀ other ∈ parent.children, other.path ≠ child.path) :
    NodeAligned (grownParent parent child first) := by
  have text : stringOfByte first = [first] := by simp [stringOfByte, narrow]
  apply NodeAligned.of_heads
  · simp only [grownParent, text, List.append_assoc, List.singleton_append]
    apply List.rel_append
    · exact List.forall₂_take _ aligned.heads
    · exact .cons (by simp [pathEq]) (List.forall₂_drop _ aligned.heads)
  · simpa [grownParent, text] using insertPosition_sorted first aligned.sorted
  · have moved : (parent.children.take (insertPosition parent.indices first) ++
        child :: parent.children.drop (insertPosition parent.indices first)).Perm
        (child :: parent.children) := by
      refine List.perm_middle.trans ?_
      rw [List.take_append_drop]
    simp only [grownParent]
    rw [(moved.map (·.path)).nodup_iff, List.map_cons, List.nodup_cons]
    refine ⟨?_, aligned.distinct⟩
    intro member
    obtain ⟨other, otherMember, otherEq⟩ := List.mem_map.mp member
    exact fresh other otherMember otherEq

/-- From `0x80` on the index text of a child is two bytes long, so the two
sequences drift apart. -/
theorem grownParent_wide {parent : Node H} (child : Node H) {first : UInt8}
    (aligned : NodeAligned parent) (wide : ¬ first < 0x80) :
    (grownParent parent child first).indices.length =
      (grownParent parent child first).children.length + 1 := by
  have text : (stringOfByte first).length = 2 := by simp [stringOfByte, wide]
  have bound := insertPosition_le parent.indices first
  have lengths := aligned.length
  simp only [grownParent, List.length_append, List.length_take, List.length_cons,
    List.length_drop, text]
  omega

end Plumego.Router
