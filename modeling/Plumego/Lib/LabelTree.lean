/-
Module: Plumego.Lib.LabelTree
Purpose: Trees whose children carry labels, read as finite maps from label
  sequences to values, with the rules for grafting one value into a tree.
Trusted boundary: none
Main exports: TreeView, TreeView.child, TreeView.follow, TreeView.valueAt,
  TreeView.Replaces, TreeView.Grafted
-/
import Mathlib.Data.List.Basic
import Mathlib.Data.List.Infix
import Mathlib.Data.List.Nodup

namespace Plumego.Lib

/-- A reading of a type as trees: the children of a node, the label of a node
under its parent, and the value a node may hold. -/
structure TreeView (N L V : Type) where
  children : N → List N
  label : N → L
  value : N → Option V

namespace TreeView

variable {N L V : Type} [DecidableEq L] (view : TreeView N L V)

/-- The first child with a given label. -/
def child (node : N) (label : L) : Option N :=
  (view.children node).find? fun branch => decide (view.label branch = label)

/-- The node at the end of a label sequence. -/
def follow : N → List L → Option N
  | node, [] => some node
  | node, label :: rest => (view.child node label).bind fun branch => follow branch rest

/-- The value stored at the end of a label sequence. -/
def valueAt (node : N) (trail : List L) : Option V :=
  (view.follow node trail).bind view.value

/-- The label sequence leads to a node. -/
def Has (node : N) (trail : List L) : Prop :=
  (view.follow node trail).isSome = true

variable {view}

@[simp] theorem follow_nil (node : N) : view.follow node [] = some node := rfl

theorem follow_cons (node : N) (label : L) (rest : List L) :
    view.follow node (label :: rest) =
      (view.child node label).bind fun branch => view.follow branch rest := rfl

theorem has_nil (node : N) : view.Has node [] := rfl

theorem valueAt_nil (node : N) : view.valueAt node [] = view.value node := rfl

theorem valueAt_cons (node : N) (label : L) (rest : List L) :
    view.valueAt node (label :: rest) =
      (view.child node label).bind fun branch => view.valueAt branch rest := by
  rw [valueAt, follow_cons]
  cases view.child node label with
  | none => rfl
  | some branch => rfl

theorem has_cons {node : N} {label : L} {rest : List L} :
    view.Has node (label :: rest) ↔
      ∃ branch, view.child node label = some branch ∧ view.Has branch rest := by
  rw [Has, follow_cons]
  cases view.child node label with
  | none => simp
  | some branch => simp [Has]

theorem has_singleton {node : N} {label : L} :
    view.Has node [label] ↔ ∃ branch, view.child node label = some branch := by
  simp [has_cons, has_nil]

theorem child_mem {node branch : N} {label : L}
    (found : view.child node label = some branch) :
    branch ∈ view.children node ∧ view.label branch = label :=
  ⟨List.mem_of_find?_eq_some found, by simpa using List.find?_some found⟩

/-- With distinct labels every child is found by its label. -/
theorem child_of_mem {node branch : N}
    (distinct : ((view.children node).map view.label).Nodup)
    (member : branch ∈ view.children node) :
    view.child node (view.label branch) = some branch := by
  cases found : view.child node (view.label branch) with
  | none =>
    have absent := List.find?_eq_none.mp found branch member
    simp at absent
  | some other =>
    obtain ⟨otherMember, sameLabel⟩ := child_mem found
    rw [List.inj_on_of_nodup_map distinct otherMember member sameLabel]

/-! ## Grafting -/

/-- `after` has the children of `before` except that `branch` is now the child
under its own label. -/
def Replaces (view : TreeView N L V) (before after branch : N) : Prop :=
  ∀ label, view.child after label =
    if label = view.label branch then some branch else view.child before label

/-- Overwriting one child by a node with the same label. -/
theorem replaces_set {before after old branch : N} {index : Nat}
    (distinct : ((view.children before).map view.label).Nodup)
    (oldEq : (view.children before)[index]? = some old)
    (sameLabel : view.label branch = view.label old)
    (childrenEq : view.children after = (view.children before).set index branch) :
    view.Replaces before after branch := by
  intro label
  unfold child
  rw [childrenEq]
  clear childrenEq
  generalize view.children before = branches at distinct oldEq
  induction branches generalizing index with
  | nil => simp at oldEq
  | cons first rest ih =>
    rw [List.map_cons, List.nodup_cons] at distinct
    cases index with
    | zero =>
      have firstEq : first = old := by simpa using oldEq
      subst firstEq
      simp only [List.set_cons_zero, List.find?_cons, sameLabel]
      by_cases hit : view.label first = label
      · simp [hit]
      · simp [hit, Ne.symm hit]
    | succ index =>
      have tail := ih distinct.2 (by simpa using oldEq)
      have apart : view.label first ≠ view.label branch := by
        intro equal
        apply distinct.1
        rw [equal, sameLabel]
        exact List.mem_map_of_mem (List.mem_of_getElem? (by simpa using oldEq))
      simp only [List.set_cons_succ, List.find?_cons, tail]
      by_cases hit : view.label first = label
      · subst hit
        simp [apart]
      · simp [hit]

/-- Inserting one child whose label is new. -/
theorem replaces_insert {before after branch : N} {front back : List N}
    (fresh : ∀ other ∈ view.children before, view.label other ≠ view.label branch)
    (beforeEq : view.children before = front ++ back)
    (afterEq : view.children after = front ++ branch :: back) :
    view.Replaces before after branch := by
  intro label
  unfold child
  rw [beforeEq] at fresh ⊢
  rw [afterEq, List.find?_append, List.find?_append, List.find?_cons]
  by_cases hit : label = view.label branch
  · subst hit
    have missing : (front.find? fun other =>
        decide (view.label other = view.label branch)) = none := by
      rw [List.find?_eq_none]
      intro other member
      simpa using fresh other (List.mem_append_left back member)
    simp [missing]
  · simp [hit, Ne.symm hit]

/-- `after` is the tree `before` with `value` stored at `trail`, and with the
nodes on the way to it. -/
structure Grafted (view : TreeView N L V) (before : N) (trail : List L)
    (value : V) (after : N) : Prop where
  has : ∀ other, view.Has after other ↔ view.Has before other ∨ other <+: trail
  valueAt : ∀ other, view.valueAt after other =
    if other = trail then some value else view.valueAt before other

/-- Storing a value at the root. -/
theorem grafted_root {before after : N} {value : V}
    (childrenEq : view.children after = view.children before)
    (valueEq : view.value after = some value) :
    view.Grafted before [] value after := by
  have sameChild : ∀ label, view.child after label = view.child before label := by
    intro label
    rw [child, child, childrenEq]
  constructor
  · intro other
    cases other with
    | nil => simp [has_nil]
    | cons label rest => simp [has_cons, sameChild]
  · intro other
    cases other with
    | nil => simp [valueAt_nil, valueEq]
    | cons label rest => simp [valueAt_cons, sameChild]

/-- Storing a value below an existing child. -/
theorem Grafted.enter {before after old branch : N} {rest : List L} {value : V}
    (grafted : view.Grafted old rest value branch)
    (oldEq : view.child before (view.label branch) = some old)
    (replaced : view.Replaces before after branch)
    (valueEq : view.value after = view.value before) :
    view.Grafted before (view.label branch :: rest) value after := by
  constructor
  · intro other
    cases other with
    | nil => simp [has_nil]
    | cons label tail =>
      rw [has_cons, has_cons, replaced label]
      by_cases hit : label = view.label branch
      · subst hit
        simp [oldEq, grafted.has tail, List.cons_prefix_cons]
      · simp [hit, List.cons_prefix_cons]
  · intro other
    cases other with
    | nil => simp [valueAt_nil, valueEq]
    | cons label tail =>
      rw [valueAt_cons, valueAt_cons, replaced label]
      by_cases hit : label = view.label branch
      · subst hit
        simp [oldEq, grafted.valueAt tail]
      · simp [hit]

/-- Storing a value below a child that is created for it. -/
theorem Grafted.insert {before after fresh branch : N} {rest : List L} {value : V}
    (grafted : view.Grafted fresh rest value branch)
    (leaf : view.children fresh = []) (noValue : view.value fresh = none)
    (missing : view.child before (view.label branch) = none)
    (replaced : view.Replaces before after branch)
    (valueEq : view.value after = view.value before) :
    view.Grafted before (view.label branch :: rest) value after := by
  have noChild : ∀ label, view.child fresh label = none := by
    intro label
    rw [child, leaf, List.find?_nil]
  constructor
  · intro other
    cases other with
    | nil => simp [has_nil]
    | cons label tail =>
      rw [has_cons, has_cons, replaced label]
      by_cases hit : label = view.label branch
      · subst hit
        -- the created child has no other node below it
        have alone : view.Has fresh tail → tail = [] := by
          cases tail with
          | nil => simp
          | cons next more => simp [has_cons, noChild]
        have reached : view.Has branch tail ↔ tail <+: rest := by
          rw [grafted.has tail]
          constructor
          · rintro (old | covered)
            · simp [alone old]
            · exact covered
          · exact Or.inr
        simp [missing, List.cons_prefix_cons, reached]
      · simp [hit, List.cons_prefix_cons]
  · intro other
    cases other with
    | nil => simp [valueAt_nil, valueEq]
    | cons label tail =>
      rw [valueAt_cons, valueAt_cons, replaced label]
      by_cases hit : label = view.label branch
      · subst hit
        have empty : view.valueAt fresh tail = none := by
          cases tail with
          | nil => exact noValue
          | cons next more => simp [valueAt_cons, noChild]
        simp [missing, grafted.valueAt tail, empty]
      · simp [hit]

end TreeView

end Plumego.Lib
